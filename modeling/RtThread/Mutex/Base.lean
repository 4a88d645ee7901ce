import RtThread.Mutex.Protocol

/-!
# The invariant of the mutex protocol

`Base`: waiting, the wait lists and `pending_object` agree, and so do owners, hold counts and the lists of taken
mutexes. A chain of priority changes keeps everything but priorities and the order of the wait lists (`Raise.same`), so
a step is what `Core` says, up to these (`Step.core`). Every step keeps `Base` (`Step.base`).
-/

namespace RtThread

namespace Protocol

variable {P : Frame → Prop} {s s' s'' : Protocol} {t u o : ThreadId} {m : MutexId} {p : Nat}

/-- The wait lists agree with `pending_object`. -/
structure Linked (s : Protocol) : Prop where
  nodup : ∀ m, (s.waiters m).Nodup
  waiting : ∀ {t m}, t ∈ s.waiters m → (s.party t).phase = .suspended ∧ (s.party t).pending = some m
  linked : ∀ {t m}, (s.party t).phase = .suspended → (s.party t).pending = some m → t ∈ s.waiters m

/-- What every step of the protocol keeps. -/
structure Base (P : Frame → Prop) (s : Protocol) : Prop extends Linked s where
  shape : ∀ t, Shape P (s.party t).cont
  taking : ∀ {t m}, t ∈ s.waiters m → (s.party t).taking = some m ∧ (s.party t).error = .eok
  blocked : ∀ {t m}, (s.party t).phase = .suspended → (s.party t).taking = some m → t ∈ s.waiters m
  attached : ∀ {t m}, t ∈ s.waiters m → (s.mutex m).object = .attached
  owned : ∀ {t m}, t ∈ s.waiters m → ∃ o, (s.mutex m).owner = some o ∧ o ≠ t
  taken_iff : ∀ {t m}, m ∈ s.taken t ↔ (s.mutex m).object = .attached ∧ (s.mutex m).owner = some t
  taken_nodup : ∀ t, (s.taken t).Nodup
  hold_pos : ∀ {t m}, (s.mutex m).owner = some t → 1 ≤ (s.mutex m).hold ∧ (s.mutex m).hold ≤ 255
  hold_zero : ∀ {m}, (s.mutex m).owner = none → (s.mutex m).hold = 0

/-! ## Priorities and the order of waiters -/

/-- The two states differ in priorities and in the order of the wait lists only. -/
structure Same (s s' : Protocol) : Prop where
  party : ∀ t, s'.party t = { s.party t with prio := (s'.party t).prio }
  perm : ∀ m, (s'.waiters m).Perm (s.waiters m)
  taken : s'.taken = s.taken
  mutex : ∀ m, s'.mutex m = { s.mutex m with priority := (s'.mutex m).priority }

namespace Same

theorem refl (s : Protocol) : Same s s := ⟨fun _ => rfl, fun _ => .refl _, rfl, fun _ => rfl⟩

section

variable (h : Same s s')

include h

theorem trans (h' : Same s' s'') : Same s s'' where
  party t := by rw [h'.party t, h.party t]
  perm m := (h'.perm m).trans (h.perm m)
  taken := h'.taken.trans h.taken
  mutex m := by rw [h'.mutex m, h.mutex m]

theorem mem (t : ThreadId) (m : MutexId) : t ∈ s'.waiters m ↔ t ∈ s.waiters m := (h.perm m).mem_iff
theorem phase (t : ThreadId) : (s'.party t).phase = (s.party t).phase := by rw [h.party t]
theorem error (t : ThreadId) : (s'.party t).error = (s.party t).error := by rw [h.party t]
theorem pending (t : ThreadId) : (s'.party t).pending = (s.party t).pending := by rw [h.party t]
theorem cont (t : ThreadId) : (s'.party t).cont = (s.party t).cont := by rw [h.party t]
theorem taking (t : ThreadId) : (s'.party t).taking = (s.party t).taking := by
  rw [Party.taking, Party.taking, h.cont]
theorem object (m : MutexId) : (s'.mutex m).object = (s.mutex m).object := by rw [h.mutex m]
theorem hold (m : MutexId) : (s'.mutex m).hold = (s.mutex m).hold := by rw [h.mutex m]
theorem owner (m : MutexId) : (s'.mutex m).owner = (s.mutex m).owner := by rw [h.mutex m]

end

theorem setPrio (s : Protocol) (t : ThreadId) (p : Nat) : Same s (s.setPrio t p) where
  party u := by
    by_cases h : u = t
    · subst h; simp [Protocol.setPrio]
    · simp [Protocol.setPrio, modParty_party_of_ne h]
  perm _ := .refl _
  taken := rfl
  mutex _ := rfl

theorem setPriority (s : Protocol) (m : MutexId) (p : Nat) :
    Same s (s.modMutex m fun x => { x with priority := p }) where
  party _ := rfl
  perm _ := .refl _
  taken := rfl
  mutex m' := by
    by_cases h : m' = m
    · subst h; simp
    · simp [modMutex_mutex_of_ne h]

theorem refresh (s : Protocol) (m : MutexId) : Same s (s.refresh m) := setPriority s m _

/-- A write to one thread that both states get. -/
theorem modParty (h : Same s s') (t : ThreadId) {f : Party → Party}
    (hf : ∀ x p, f { x with prio := p } = { f x with prio := p }) :
    Same (s.modParty t f) (s'.modParty t f) where
  party u := by
    by_cases e : u = t
    · subst e
      rw [modParty_party_self, modParty_party_self, h.party u, hf]
    · rw [modParty_party_of_ne e, modParty_party_of_ne e, ← h.party u]
  perm := h.perm
  taken := h.taken
  mutex := h.mutex

theorem modMutex (h : Same s s') (m : MutexId) {g : Mutex → Mutex}
    (hg : ∀ x p, ∃ q, g { x with priority := p } = { g x with priority := q }) :
    Same (s.modMutex m g) (s'.modMutex m g) where
  party := h.party
  perm := h.perm
  taken := h.taken
  mutex m' := by
    by_cases e : m' = m
    · subst e
      obtain ⟨q, hq⟩ := hg (s.mutex m') (s'.mutex m').priority
      rw [modMutex_mutex_self, modMutex_mutex_self, h.mutex m', hq]
    · rw [modMutex_mutex_of_ne e, modMutex_mutex_of_ne e, ← h.mutex m']

theorem addTaken (h : Same s s') (t : ThreadId) (m : MutexId) : Same (s.addTaken t m) (s'.addTaken t m) where
  party := h.party
  perm := h.perm
  taken := by rw [addTaken_taken, addTaken_taken, h.taken]
  mutex := h.mutex

theorem unlink (h : Same s s') (t : ThreadId) : Same (s.unlink t) (s'.unlink t) where
  party := h.party
  perm m := (h.perm m).filter _
  taken := h.taken
  mutex := h.mutex

end Same

theorem Linked.congr (h : Linked s) (hs : Same s s') : Linked s' where
  nodup m := (hs.perm m).nodup_iff.2 (h.nodup m)
  waiting hm := by rw [hs.phase, hs.pending]; exact h.waiting ((hs.mem _ _).1 hm)
  linked hp hm := by rw [hs.phase] at hp; rw [hs.pending] at hm; exact (hs.mem _ _).2 (h.linked hp hm)

theorem Base.congr (h : Base P s) (hs : Same s s') : Base P s' where
  toLinked := h.toLinked.congr hs
  shape t := by rw [hs.cont]; exact h.shape t
  taking hm := by rw [hs.taking, hs.error]; exact h.taking ((hs.mem _ _).1 hm)
  blocked hp hm := by rw [hs.phase] at hp; rw [hs.taking] at hm; exact (hs.mem _ _).2 (h.blocked hp hm)
  attached hm := by rw [hs.object]; exact h.attached ((hs.mem _ _).1 hm)
  owned hm := by rw [hs.owner]; exact h.owned ((hs.mem _ _).1 hm)
  taken_iff := by intro t m; rw [hs.taken, hs.object, hs.owner]; exact h.taken_iff
  taken_nodup t := by rw [hs.taken]; exact h.taken_nodup t
  hold_pos ho := by rw [hs.owner] at ho; rw [hs.hold]; exact h.hold_pos ho
  hold_zero ho := by rw [hs.owner] at ho; rw [hs.hold]; exact h.hold_zero ho

/-- A thread in a wait list is in no other. -/
theorem Linked.mutex_eq (h : Linked s) {m m' : MutexId} (hm : t ∈ s.waiters m) (hm' : t ∈ s.waiters m') : m = m' :=
  Option.some.inj ((h.waiting hm).2.symm.trans (h.waiting hm').2)

theorem mem_link : u ∈ (s.link t m).waiters m' ↔ u ∈ s.waiters m' ∨ (m' = m ∧ u = t) := Links.mem_insertSorted

/-- A waiter that moves within its list. -/
theorem Same.move (h : Linked s) (ht : t ∈ s.waiters m) : Same s (s.move t m) := by
  have h1 : Same s ((s.unlink t).link t m) := ⟨fun _ => rfl, fun m' => ?_, rfl, fun _ => rfl⟩
  · exact h1.trans (Same.refresh _ m)
  change (Links.insertSorted _ (Links.remove s.waiters t) m t m').Perm (s.waiters m')
  by_cases e : m' = m
  · subst e
    rw [Links.insertSorted, Function.update_self, Links.remove]
    refine (List.perm_orderedInsert _ _ _).trans ?_
    have herase : (s.waiters m').filter (· ≠ t) = (s.waiters m').erase t := by
      rw [(h.nodup m').erase_eq_filter]
      exact List.filter_congr fun u _ => by by_cases e : u = t <;> simp [e]
    rw [herase]
    exact (List.perm_cons_erase ht).symm
  · rw [Links.insertSorted_ne e, Links.remove_of_notMem fun hm => e (h.mutex_eq hm ht)]

/-- A chain of priority changes. -/
theorem Raise.same (hr : Raise s t p s') (h : Linked s) : Same s s' := by
  induction hr with
  | stop _ => exact Same.setPrio _ _ _
  | @last s _ t _ _ p hs hm _ hs' =>
    have h1 := Same.setPrio s t p
    rw [hs']
    exact h1.trans (Same.move (h.congr h1) (h.linked hs hm))
  | @next s _ _ t _ _ p hs hm _ hs' _ _ _ ih =>
    have h1 := Same.setPrio s t p
    have h2 := h1.trans (Same.move (h.congr h1) (h.linked hs hm))
    rw [← hs'] at h2
    exact h2.trans (ih (h.congr h2))

theorem Left.same (hl : Left s m t s') (h : Linked s) : Same s s' := by
  cases hl with
  | skip _ _ => exact Same.refresh s m
  | keep _ _ _ => exact Same.refresh s m
  | raise _ _ _ hr => exact (Same.refresh s m).trans (hr.same (h.congr (Same.refresh s m)))

theorem Same.releasePrio (s : Protocol) (t : ThreadId) (m : MutexId) : Same s (s.releasePrio t m) := by
  unfold Protocol.releasePrio
  split
  · exact Same.setPrio _ _ _
  · exact Same.refl s

/-! ## Writes to one thread -/

theorem Linked.notMem (h : Linked s) (ht : (s.party t).phase ≠ .suspended) (m : MutexId) : t ∉ s.waiters m :=
  fun hm => ht (h.waiting hm).1

theorem unlink_of_notMem (ht : ∀ m, t ∉ s.waiters m) : s.unlink t = s := by
  rw [unlink, Links.remove_of_free ht]

variable {f : Party → Party} {a : Act}

theorem Linked.unlink_modParty (h : Linked s) (hp : (f (s.party t)).phase ≠ .suspended) :
    Linked ((s.unlink t).modParty t f) := by
  have hparty {u : ThreadId} (e : u ≠ t) : ((s.unlink t).modParty t f).party u = s.party u := modParty_party_of_ne e
  have hmem {u : ThreadId} {m : MutexId} : u ∈ ((s.unlink t).modParty t f).waiters m ↔ u ∈ s.waiters m ∧ u ≠ t := by
    simp
  refine ⟨fun m => (h.nodup m).filter _, fun hu => ?_, fun {u m} hs hm => ?_⟩
  · obtain ⟨hu, e⟩ := hmem.1 hu
    rw [hparty e]; exact h.waiting hu
  · by_cases e : u = t
    · subst e; rw [modParty_party_self] at hs; exact absurd hs hp
    · rw [hparty e] at hs hm
      exact hmem.2 ⟨h.linked hs hm, e⟩

/-- A thread leaves the wait list it is in, and is not suspended any more. -/
theorem Base.unlink_modParty (h : Base P s) (hp : (f (s.party t)).phase ≠ .suspended)
    (hc : Shape P (f (s.party t)).cont) : Base P ((s.unlink t).modParty t f) := by
  have hparty {u : ThreadId} (e : u ≠ t) : ((s.unlink t).modParty t f).party u = s.party u := modParty_party_of_ne e
  have hmem {u : ThreadId} {m : MutexId} : u ∈ ((s.unlink t).modParty t f).waiters m ↔ u ∈ s.waiters m ∧ u ≠ t := by
    simp
  refine ⟨h.toLinked.unlink_modParty hp, fun u => ?_, fun hu => ?_, fun {u m} hs hm => ?_,
    fun hu => h.attached (hmem.1 hu).1, fun hu => h.owned (hmem.1 hu).1, h.taken_iff, h.taken_nodup, h.hold_pos,
    h.hold_zero⟩
  · by_cases e : u = t
    · subst e; rw [modParty_party_self]; exact hc
    · rw [hparty e]; exact h.shape u
  · obtain ⟨hu, e⟩ := hmem.1 hu
    rw [hparty e]; exact h.taking hu
  · by_cases e : u = t
    · subst e; rw [modParty_party_self] at hs; exact absurd hs hp
    · rw [hparty e] at hs hm
      exact hmem.2 ⟨h.blocked hs hm, e⟩

/-- A thread that is not suspended changes, and still is not. -/
theorem Base.modParty_active (h : Base P s) (ht : (s.party t).phase ≠ .suspended)
    (hp : (f (s.party t)).phase ≠ .suspended) (hc : Shape P (f (s.party t)).cont) : Base P (s.modParty t f) := by
  have := h.unlink_modParty (t := t) hp hc
  rwa [unlink_of_notMem (h.notMem ht)] at this

/-- Threads outside the mutex functions change. -/
theorem Base.other (h : Base P s) {x : ThreadId → Party} (hx : ∀ t, x t = s.party t ∨ Quiet P (s.party t) (x t)) :
    Base P { s with party := x } := by
  have hparty {u : ThreadId} {m : MutexId} (hu : (s.party u).taking = some m ∨ (x u).taking = some m) :
      x u = s.party u := by
    rcases hx u with e | hq
    · exact e
    · rcases hu with hu | hu
      · rw [hq.taking] at hu; cases hu
      · rw [hq.taking'] at hu; cases hu
  refine ⟨⟨h.nodup, fun {u m} hu => ?_, fun {u m} hs hm => ?_⟩, fun u => ?_, fun {u m} hu => ?_, fun {u m} hs hm => ?_,
    h.attached, h.owned, h.taken_iff, h.taken_nodup, h.hold_pos, h.hold_zero⟩
  · change (x u).phase = _ ∧ (x u).pending = _
    rw [hparty (.inl (h.taking hu).1)]; exact h.waiting hu
  · change (x u).phase = _ at hs
    change (x u).pending = _ at hm
    rcases hx u with e | hq
    · rw [e] at hs hm; exact h.linked hs hm
    · rw [hq.pending] at hm
      rcases hq.suspended hs with hs | hn
      · exact h.linked hs hm
      · simp [hn] at hm
  · change Shape P (x u).cont
    rcases hx u with e | hq
    · rw [e]; exact h.shape u
    · exact hq.shape
  · change (x u).taking = _ ∧ (x u).error = _
    rw [hparty (.inl (h.taking hu).1)]; exact h.taking hu
  · change (x u).phase = _ at hs
    change (x u).taking = _ at hm
    have e := hparty (.inr hm)
    rw [e] at hs hm
    exact h.blocked hs hm

/-- The continuation of a thread changes within the same take. -/
theorem Base.modParty_cont (h : Base P s) {c : List Frame} (hc : Shape P c)
    (ht : c.findSome? Frame.taking = (s.party t).taking) : Base P (s.modParty t fun x => { x with cont := c }) := by
  have hphase := modParty_part (s := s) (t := t) (f := fun x => { x with cont := c }) Party.phase rfl
  have hpend := modParty_part (s := s) (t := t) (f := fun x => { x with cont := c }) Party.pending rfl
  have herr := modParty_part (s := s) (t := t) (f := fun x => { x with cont := c }) Party.error rfl
  have htak := modParty_part (s := s) (t := t) (f := fun x => { x with cont := c }) Party.taking ht
  refine ⟨⟨h.nodup, fun {u m} hu => ?_, fun {u m} hs hm => ?_⟩, fun u => ?_, fun {u m} hu => ?_, fun {u m} hs hm => ?_,
    h.attached, h.owned, h.taken_iff, h.taken_nodup, h.hold_pos, h.hold_zero⟩
  · rw [hphase, hpend]; exact h.waiting hu
  · rw [hphase] at hs; rw [hpend] at hm; exact h.linked hs hm
  · by_cases e : u = t
    · subst e; rw [modParty_party_self]; exact hc
    · rw [modParty_party_of_ne e]; exact h.shape u
  · rw [htak, herr]; exact h.taking hu
  · rw [hphase] at hs; rw [htak] at hm; exact h.blocked hs hm

/-! ## Writes to one mutex -/

theorem Linked.congr_mutex (h : Linked s) (hp : s'.party = s.party) (hw : s'.waiters = s.waiters) : Linked s' where
  nodup m := by rw [hw]; exact h.nodup m
  waiting hu := by rw [hp]; exact h.waiting (hw ▸ hu)
  linked hs hm := by rw [hw]; rw [hp] at hs hm; exact h.linked hs hm

/-- Owner, hold count and taken lists change together. -/
theorem Base.setOwner (h : Base P s) {x : Mutex} {T : ThreadId → List MutexId}
    (hw : ∀ u ∈ s.waiters m, x.object = .attached ∧ ∃ o, x.owner = some o ∧ o ≠ u)
    (hT : ∀ u m', m' ∈ T u ↔ (m' ∈ s.taken u ∧ m' ≠ m) ∨ (m' = m ∧ x.object = .attached ∧ x.owner = some u))
    (hn : ∀ u, (T u).Nodup) (hpos : ∀ u, x.owner = some u → 1 ≤ x.hold ∧ x.hold ≤ 255)
    (hzero : x.owner = none → x.hold = 0) :
    Base P { s with taken := T, mutex := Function.update s.mutex m x } := by
  refine ⟨h.toLinked.congr_mutex rfl rfl, h.shape, h.taking, h.blocked, fun {u m'} hu => ?_, fun {u m'} hu => ?_,
    fun {u m'} => ?_, hn, fun {u m'} ho => ?_, fun {m'} ho => ?_⟩
  · by_cases e : m' = m
    · subst e; simpa using (hw u hu).1
    · simpa [e] using h.attached hu
  · by_cases e : m' = m
    · subst e; simpa using (hw u hu).2
    · simpa [e] using h.owned hu
  · rw [hT]
    by_cases e : m' = m
    · subst e; simp
    · simpa [e] using h.taken_iff
  · by_cases e : m' = m
    · subst e; simp only [Function.update_self] at ho ⊢; exact hpos u ho
    · simp only [Function.update_of_ne e] at ho ⊢; exact h.hold_pos ho
  · by_cases e : m' = m
    · subst e; simp only [Function.update_self] at ho ⊢; exact hzero ho
    · simp only [Function.update_of_ne e] at ho ⊢; exact h.hold_zero ho

/-- Only the hold count changes. -/
theorem Base.setHold (h : Base P s) {n : Nat} (ho : (s.mutex m).owner = some t) (h1 : 1 ≤ n) (h255 : n ≤ 255) :
    Base P (s.modMutex m fun x => { x with hold := n }) := by
  have hobj := modMutex_part (s := s) (m := m) (g := fun x => { x with hold := n }) Mutex.object rfl
  have hown := modMutex_part (s := s) (m := m) (g := fun x => { x with hold := n }) Mutex.owner rfl
  refine ⟨h.toLinked.congr_mutex rfl rfl, h.shape, h.taking, h.blocked, fun hu => ?_, fun hu => ?_, fun {u m'} => ?_,
    h.taken_nodup, fun {u m'} ho' => ?_, fun {m'} ho' => ?_⟩
  · rw [hobj]; exact h.attached hu
  · rw [hown]; exact h.owned hu
  · rw [hobj, hown]; exact h.taken_iff
  · rw [hown] at ho'
    by_cases e : m' = m
    · subst e; rw [modMutex_mutex_self]; exact ⟨h1, h255⟩
    · rw [modMutex_mutex_of_ne e]; exact h.hold_pos ho'
  · rw [hown] at ho'
    by_cases e : m' = m
    · subst e; simp [ho] at ho'
    · rw [modMutex_mutex_of_ne e]; exact h.hold_zero ho'

/-! ## Steps -/

theorem Base.taken_wf (h : Base P s) : Links.Wf s.taken where
  nodup := h.taken_nodup
  disjoint hu hv := Option.some.inj ((h.taken_iff.1 hu).2.symm.trans (h.taken_iff.1 hv).2)

theorem Base.acquire (h : Base P s) (hs : (s.party t).phase ≠ .suspended) (ha : (s.mutex m).object = .attached)
    (ho : (s.mutex m).owner = none) :
    Base P (((s.modParty t fun x => { x with error := .eok }).modMutex m
      fun x => { x with owner := some t, priority := 0xff, hold := 1 }).addTaken t m) := by
  have h0 := h.modParty_active (t := t) (f := fun x => { x with error := .eok }) hs hs (h.shape t)
  have hmem (u : ThreadId) : m ∉ s.taken u := fun hm => by simpa [ho] using h.taken_iff.1 hm
  refine h0.setOwner (T := Links.insertAfter s.taken t m) (fun u hu => ?_) (fun u m' => ?_) (fun u => ?_)
    (fun u _ => by simp) (by simp)
  · obtain ⟨o, ho', -⟩ := h.owned hu
    rw [ho] at ho'; cases ho'
  · rw [Links.mem_insertAfter]
    by_cases e : m' = m
    · subst e; simp [hmem, ha, eq_comm]
    · simp [e]
  · exact (h.taken_wf.insertAfter hmem t).nodup u

/-- A suspended thread joins a wait list. -/
theorem Linked.block (h : Linked s) (hs : (s.party t).phase = .active)
    (hf : (f (s.party t)).phase = .suspended ∧ (f (s.party t)).pending = some m) : Linked ((s.modParty t f).link t m) := by
  have hnot := h.notMem (t := t) (by simp [hs])
  have hparty {u : ThreadId} (e : u ≠ t) : ((s.modParty t f).link t m).party u = s.party u := modParty_party_of_ne e
  have hself : ((s.modParty t f).link t m).party t = f (s.party t) := modParty_party_self ..
  refine ⟨fun m' => ?_, fun {u m'} hu => ?_, fun {u m'} hs' hm' => ?_⟩
  · change (Links.insertSorted _ s.waiters m t m').Nodup
    by_cases e : m' = m
    · subst e
      rw [Links.insertSorted, Function.update_self]
      exact (List.perm_orderedInsert _ _ _).nodup_iff.2 (List.nodup_cons.2 ⟨hnot m', h.nodup m'⟩)
    · rw [Links.insertSorted_ne e]; exact h.nodup m'
  · by_cases e : u = t
    · subst e
      rcases mem_link.1 hu with hu | ⟨rfl, -⟩
      · exact absurd hu (hnot m')
      · rw [hself]; exact hf
    · rw [hparty e]
      exact h.waiting ((mem_link.1 hu).resolve_right fun hu => e hu.2)
  · by_cases e : u = t
    · subst e
      rw [hself, hf.2] at hm'
      exact mem_link.2 (.inr ⟨(Option.some.inj hm').symm, rfl⟩)
    · rw [hparty e] at hs' hm'
      exact mem_link.2 (.inl (h.linked hs' hm'))

theorem Base.block (h : Base P s) (hs : (s.party t).phase = .active) (ha : (s.mutex m).object = .attached)
    (ho : (s.mutex m).owner = some o) (hot : o ≠ t)
    (hf : (f (s.party t)).phase = .suspended ∧ (f (s.party t)).pending = some m)
    (ht : (f (s.party t)).taking = some m ∧ (f (s.party t)).error = .eok) (hc : Shape P (f (s.party t)).cont) :
    Base P ((s.modParty t f).link t m) := by
  have hparty {u : ThreadId} (e : u ≠ t) : ((s.modParty t f).link t m).party u = s.party u := modParty_party_of_ne e
  have hself : ((s.modParty t f).link t m).party t = f (s.party t) := modParty_party_self ..
  have hnot := h.notMem (t := t) (by simp [hs])
  refine ⟨h.toLinked.block hs hf, fun u => ?_, fun {u m'} hu => ?_, fun {u m'} hs' hm' => ?_, fun {u m'} hu => ?_,
    fun {u m'} hu => ?_, h.taken_iff, h.taken_nodup, h.hold_pos, h.hold_zero⟩
  · by_cases e : u = t
    · subst e; rw [hself]; exact hc
    · rw [hparty e]; exact h.shape u
  · by_cases e : u = t
    · subst e
      rcases mem_link.1 hu with hu | ⟨rfl, -⟩
      · exact absurd hu (hnot m')
      · rw [hself]; exact ht
    · rw [hparty e]
      exact h.taking ((mem_link.1 hu).resolve_right fun hu => e hu.2)
  · by_cases e : u = t
    · subst e
      rw [hself, ht.1] at hm'
      exact mem_link.2 (.inr ⟨(Option.some.inj hm').symm, rfl⟩)
    · rw [hparty e] at hs' hm'
      exact mem_link.2 (.inl (h.blocked hs' hm'))
  · rcases mem_link.1 hu with hu | ⟨rfl, -⟩
    · exact h.attached hu
    · exact ha
  · rcases mem_link.1 hu with hu | ⟨rfl, rfl⟩
    · exact h.owned hu
    · exact ⟨o, ho, hot⟩

theorem Base.free (h : Base P s) (hw : s.waiters m = []) :
    Base P ((s.dropTaken m).modMutex m fun x => { x with owner := none, priority := 0xff, hold := 0 }) := by
  refine h.setOwner (T := Links.remove s.taken m) (by simp [hw]) (fun u m' => ?_)
    (fun u => (h.taken_nodup u).filter _) (by simp) (by simp)
  simp [Links.mem_remove]

/-- The first waiter leaves the list and owns the mutex. -/
theorem Base.grant (h : Base P s) {n : ThreadId} {ns : List ThreadId} (ha : (s.mutex m).object = .attached)
    (hw : s.waiters m = n :: ns) :
    Base P (((((s.dropTaken m).unlink n).addTaken n m).modMutex m fun x => { x with owner := some n, hold := 1 }).modParty n
      fun x => { x with pending := none, phase := .active }) := by
  have h1 := h.unlink_modParty (t := n) (f := fun x => { x with pending := none, phase := .active }) (by simp)
    (h.shape n)
  refine h1.setOwner (T := Links.insertAfter (Links.remove s.taken m) n m) (fun u hu => ⟨ha, n, rfl, ?_⟩)
    (fun u m' => ?_) (fun u => ?_) (fun u _ => by simp) (by simp)
  · rintro rfl
    exact Links.free_remove s.waiters n m hu
  · rw [Links.mem_insertAfter, Links.mem_remove]
    by_cases e : m' = m
    · subst e; simp [ha, eq_comm]
    · simp [e]
  · exact ((h.taken_wf.remove m).insertAfter (Links.free_remove _ _) n).nodup u

theorem Base.detach (h : Base P s) {object : ObjectState} (hobj : object ≠ .attached) :
    Base P (((s.wakeAll m).dropTaken m).modMutex m fun x => { x with object := object }) := by
  have hcont (u : ThreadId) : ((s.wakeAll m).party u).cont = (s.party u).cont := by
    by_cases hu : u ∈ s.waiters m
    · rw [wakeAll_party_of_mem hu]
    · rw [wakeAll_party_of_notMem hu]
  have hmem {u : ThreadId} {m' : MutexId} (hu : u ∈ (s.wakeAll m).waiters m') : u ∈ s.waiters m' ∧ m' ≠ m := by
    rw [wakeAll_waiters] at hu
    by_cases e : m' = m
    · subst e; simp at hu
    · simpa [e] using hu
  have hmem' {u : ThreadId} {m' : MutexId} (hu : u ∉ s.waiters m) (hu' : u ∈ s.waiters m') :
      u ∈ (s.wakeAll m).waiters m' := by
    have e : m' ≠ m := by rintro rfl; exact hu hu'
    rw [wakeAll_waiters, Function.update_of_ne e]
    exact hu'
  have hsusp {u : ThreadId} (hu : ((s.wakeAll m).party u).phase = .suspended) : u ∉ s.waiters m := by
    intro hm
    rw [wakeAll_party_of_mem hm] at hu
    cases hu
  have hother {u : ThreadId} {m' : MutexId} (hu : u ∈ (s.wakeAll m).waiters m') :
      (s.wakeAll m).party u = s.party u :=
    wakeAll_party_of_notMem fun hm => (hmem hu).2 (h.mutex_eq (hmem hu).1 hm)
  refine ⟨⟨fun m' => ?_, fun {u m'} hu => ?_, fun {u m'} hs hm => ?_⟩, fun u => ?_, fun {u m'} hu => ?_,
    fun {u m'} hs hm => ?_, fun {u m'} hu => ?_, fun {u m'} hu => ?_, fun {u m'} => ?_,
    fun u => (h.taken_nodup u).filter _, fun {u m'} ho => ?_, fun {m'} ho => ?_⟩
  all_goals try simp only [modMutex_party, modMutex_waiters, dropTaken_party, dropTaken_waiters] at *
  · by_cases e : m' = m
    · subst e; simp [wakeAll_waiters]
    · rw [wakeAll_waiters, Function.update_of_ne e]; exact h.nodup m'
  · rw [hother hu]; exact h.waiting (hmem hu).1
  · have hu := hsusp hs
    rw [wakeAll_party_of_notMem hu] at hs hm
    exact hmem' hu (h.linked hs hm)
  · rw [hcont]; exact h.shape u
  · rw [hother hu]; exact h.taking (hmem hu).1
  · have hu := hsusp hs
    rw [wakeAll_party_of_notMem hu] at hs hm
    exact hmem' hu (h.blocked hs hm)
  · rw [modMutex_mutex_of_ne (hmem hu).2]; exact h.attached (hmem hu).1
  · rw [modMutex_mutex_of_ne (hmem hu).2]; exact h.owned (hmem hu).1
  · by_cases e : m' = m
    · subst e; simp [hobj]
    · rw [modMutex_mutex_of_ne e]
      simpa [e] using h.taken_iff
  · rw [modMutex_part Mutex.owner rfl] at ho
    rw [modMutex_part Mutex.hold rfl]
    exact h.hold_pos ho
  · rw [modMutex_part Mutex.owner rfl] at ho
    rw [modMutex_part Mutex.hold rfl]
    exact h.hold_zero ho

theorem Base.setCeiling (h : Base P s) (p : Nat) : Base P (s.modMutex m fun x => { x with ceilingPriority := p }) := by
  have hobj := modMutex_part (s := s) (m := m) (g := fun x => { x with ceilingPriority := p }) Mutex.object rfl
  have hown := modMutex_part (s := s) (m := m) (g := fun x => { x with ceilingPriority := p }) Mutex.owner rfl
  have hhold := modMutex_part (s := s) (m := m) (g := fun x => { x with ceilingPriority := p }) Mutex.hold rfl
  refine ⟨h.toLinked.congr_mutex rfl rfl, h.shape, h.taking, h.blocked, fun hu => ?_, fun hu => ?_, fun {u m'} => ?_,
    h.taken_nodup, fun {u m'} ho => ?_, fun {m'} ho => ?_⟩
  · rw [hobj]; exact h.attached hu
  · rw [hown]; exact h.owned hu
  · rw [hobj, hown]; exact h.taken_iff
  · rw [hown] at ho; rw [hhold]; exact h.hold_pos ho
  · rw [hown] at ho; rw [hhold]; exact h.hold_zero ho

theorem taking_of_cont_nil {x : Party} (h : x.cont = []) : x.taking = none := by simp [Party.taking, h]

/-- A later write to the thread that is linked may be made before. -/
theorem modParty_link {g : Party → Party} (hf : ∀ x, (f x).prio = x.prio) (hg : ∀ x, (g x).prio = x.prio) :
    ((s.modParty t f).link t m).modParty t g = (s.modParty t fun x => g (f x)).link t m := by
  have key : (fun u => ((s.modParty t f).party u).prio) = fun u => ((s.modParty t fun x => g (f x)).party u).prio := by
    funext u
    exact (modParty_part (f := f) Party.prio (hf _) u).trans
      (modParty_part (f := fun x => g (f x)) Party.prio ((hg _).trans (hf _)) u).symm
  rw [link, link, key]
  simp [modParty]

/-- The steps, with what they do to priorities left out. -/
inductive Core (P : Frame → Prop) : Protocol → Act → Protocol → Prop
  | other {s : Protocol} (x : ThreadId → Party) (hx : ∀ t, x t = s.party t ∨ Quiet P (s.party t) (x t)) :
      Core P s .other { s with party := x }
  | pop {s : Protocol} {t : ThreadId} {m : MutexId} (hc : (s.party t).cont = [.schedule, .mutexTake m]) :
      Core P s (.pop t) (s.modParty t fun x => { x with cont := [.mutexTake m] })
  | prio {s : Protocol} {t : ThreadId} : Core P s (.prio t) s
  | acquire {s : Protocol} {t : ThreadId} {m : MutexId} (hs : (s.party t).phase ≠ .suspended)
      (hc : (s.party t).cont = []) (ha : (s.mutex m).object = .attached) (ho : (s.mutex m).owner = none) :
      Core P s (.acquire t m) (((s.modParty t fun x => { x with error := .eok }).modMutex m
        fun x => { x with owner := some t, priority := 0xff, hold := 1 }).addTaken t m)
  | nest {s : Protocol} {t : ThreadId} {m : MutexId} (hs : (s.party t).phase ≠ .suspended)
      (hc : (s.party t).cont = []) (ho : (s.mutex m).owner = some t) (hh : (s.mutex m).hold < 255) :
      Core P s (.nest t m) ((s.modParty t fun x => { x with error := .eok }).modMutex m
        fun x => { x with hold := x.hold + 1 })
  | block {s : Protocol} {t o : ThreadId} {m : MutexId} (hs : (s.party t).phase = .active)
      (hc : (s.party t).cont = []) (ha : (s.mutex m).object = .attached) (ho : (s.mutex m).owner = some o) (hot : o ≠ t)
      (hP : P (.mutexTake m)) :
      Core P s (.block t m) ((s.modParty t fun x => { x with
        error := .eok, phase := .suspended, pending := some m, cont := [.schedule, .mutexTake m] }).link t m)
  | unnest {s : Protocol} {t : ThreadId} {m : MutexId} (ho : (s.mutex m).owner = some t)
      (hh : 2 ≤ (s.mutex m).hold) (hc : (s.party t).taking = none) :
      Core P s (.unnest t m) (s.modMutex m fun x => { x with hold := x.hold - 1 })
  | free {s : Protocol} {t : ThreadId} {m : MutexId} (hc : (s.party t).taking = none)
      (ho : (s.mutex m).owner = some t) (hh : (s.mutex m).hold = 1) (hw : s.waiters m = []) :
      Core P s (.free t m) ((s.dropTaken m).modMutex m fun x => { x with owner := none, priority := 0xff, hold := 0 })
  | grant {s : Protocol} {t n : ThreadId} {m : MutexId} {ns : List ThreadId} (hc : (s.party t).taking = none)
      (ha : (s.mutex m).object = .attached) (ho : (s.mutex m).owner = some t) (hh : (s.mutex m).hold = 1)
      (hw : s.waiters m = n :: ns) :
      Core P s (.grant t m n) (((((s.dropTaken m).unlink n).addTaken n m).modMutex m
        fun x => { x with owner := some n, hold := 1 }).modParty n fun x => { x with pending := none, phase := .active })
  | expire {s : Protocol} {t : ThreadId} {m : MutexId} (e : RtErr) (he : e ≠ .eok) (hw : t ∈ s.waiters m) :
      Core P s (.expire t m) ((s.unlink t).modParty t fun x => { x with phase := .active, error := e })
  | wake {s : Protocol} {t : ThreadId} {m : MutexId} (hw : t ∈ s.waiters m) :
      Core P s (.wake t m) ((s.unlink t).modParty t fun x => { x with phase := .active })
  | finish {s : Protocol} {t : ThreadId} {m : MutexId} (hs : (s.party t).phase = .active)
      (hc : (s.party t).cont = [.mutexTake m]) (he : (s.party t).error = .eok) :
      Core P s (.finish t m) (s.modParty t fun x => { x with cont := [] })
  | abort {s : Protocol} {t : ThreadId} {m : MutexId} (hs : (s.party t).phase = .active)
      (hc : (s.party t).cont = [.mutexTake m]) (he : (s.party t).error ≠ .eok) (ho : (s.mutex m).owner ≠ none) :
      Core P s (.abort t m) (s.modParty t fun x => { x with cont := [] })
  | ceiling {s : Protocol} {m : MutexId} (p : Nat) :
      Core P s (.ceiling m) (s.modMutex m fun x => { x with ceilingPriority := p })
  | close {s : Protocol} {t : ThreadId} (hlive : (s.party t).phase ≠ .closed)
      (hp : ∀ m, (s.party t).pending = some m → (s.mutex m).object = .attached → (s.party t).phase = .active ∧
        (s.party t).cont = []) :
      Core P s (.close t) ((s.unlink t).modParty t fun x => { x with phase := .closed })
  | drop {s : Protocol} {t : ThreadId} {m : MutexId} (hlive : (s.party t).phase ≠ .closed)
      (hp : (s.party t).pending = some m) (ha : (s.mutex m).object = .attached) (ho : (s.mutex m).owner ≠ none) :
      Core P s (.drop t m) ((s.unlink t).modParty t fun x => { x with phase := .closed, pending := none })
  | detach {s : Protocol} {m : MutexId} (object : ObjectState) (hobj : object ≠ .attached)
      (ha : (s.mutex m).object = .attached) :
      Core P s (.detach m) (((s.wakeAll m).dropTaken m).modMutex m fun x => { x with object := object })

theorem modParty_modParty (f g : Party → Party) : (s.modParty t f).modParty t g = s.modParty t fun x => g (f x) := by
  simp [modParty]

theorem Left.owner (hl : Left s m t s') : (s.mutex m).owner ≠ none := by
  cases hl with
  | skip ho _ => simp [ho]
  | keep ho _ _ => simp [ho]
  | raise ho _ _ _ => simp [ho]

/-- Up to priorities and the order of waiters, a step is what `Core` says. -/
theorem Step.core (hst : Step P s a s') (h : Linked s) : ∃ x, Core P s a x ∧ Same x s' := by
  cases hst with
  | other x hx => exact ⟨_, .other x hx, Same.refl _⟩
  | pop hc => exact ⟨_, .pop hc, Same.refl _⟩
  | prio p => exact ⟨_, .prio, Same.setPrio _ _ _⟩
  | @acquire _ t m hs hc ha ho hs' =>
    refine ⟨_, .acquire hs hc ha ho, Same.addTaken ?_ t m⟩
    rw [hs']
    split
    · exact Same.setPrio _ _ _
    · exact Same.refl _
  | nest hs hc ho hh => exact ⟨_, .nest hs hc ho hh, Same.refl _⟩
  | @block s1 s2 s3 t o m hs hc ha ho hot hs1 hs2 hs3 hP =>
    refine ⟨_, .block hs hc ha ho hot hP, ?_⟩
    have hlinked : Linked s1 := hs1 ▸ h.block hs ⟨rfl, rfl⟩
    have h12 : Same s1 s2 := by
      rw [hs2]
      split
      · exact Same.setPriority _ _ _
      · exact Same.refl _
    have h13 : Same s1 s3 := by
      split at hs3
      · exact h12.trans (hs3.same (hlinked.congr h12))
      · rw [hs3]; exact h12
    have h3 := h13.modParty t (f := fun x => { x with cont := [.schedule, .mutexTake m] }) fun _ _ => rfl
    rw [hs1, modParty_link (f := fun x => { x with error := .eok, phase := .suspended, pending := some m })
      (g := fun x => { x with cont := [.schedule, .mutexTake m] }) (fun _ => rfl) fun _ => rfl] at h3
    exact h3
  | unnest ho hh hc => exact ⟨_, .unnest ho hh hc, Same.refl _⟩
  | free hs hc ha ho hh hw =>
    exact ⟨_, .free hc ho hh hw, (Same.releasePrio _ _ _).modMutex _ fun _ p => ⟨0xff, rfl⟩⟩
  | @grant s1 t n m ns hs hc ha ho hh hw hs' =>
    refine ⟨_, .grant hc ha ho hh hw, ?_⟩
    rw [hs']
    have hsame := ((((Same.releasePrio (s.dropTaken m) t m).unlink n).addTaken n m).modMutex m
      (g := fun x => { x with owner := some n, hold := 1 }) fun _ p => ⟨p, rfl⟩).modParty n
        (f := fun x => { x with pending := none, phase := .active }) fun _ _ => rfl
    exact hsame.trans (Same.refresh _ m)
  | expire e he hw => exact ⟨_, .expire e he hw, Same.refl _⟩
  | wake hw => exact ⟨_, .wake hw, Same.refl _⟩
  | finish hs hc he => exact ⟨_, .finish hs hc he, Same.refl _⟩
  | @abort _ t _ hs hc he hl =>
    have h1 : Linked (s.modParty t fun x => { x with cont := [] }) := by
      have := h.unlink_modParty (t := t) (f := fun x => { x with cont := [] }) (by simp [hs])
      rwa [unlink_of_notMem (h.notMem (by simp [hs]))] at this
    exact ⟨_, .abort hs hc he hl.owner, hl.same h1⟩
  | @ceiling s1 _ m p hs1 hs' =>
    have h1 : Linked s1 := hs1 ▸ h.congr_mutex rfl rfl
    refine ⟨s1, hs1 ▸ .ceiling p, ?_⟩
    rcases hs' with ⟨rfl, -⟩ | ⟨o, -, hr⟩
    · exact Same.refl _
    · exact hr.same h1
  | close hlive hp => exact ⟨_, .close hlive hp, Same.refl _⟩
  | @drop s1 t m hlive hp ha hl =>
    refine ⟨_, .drop hlive hp ha hl.owner, ?_⟩
    have h1 := h.unlink_modParty (t := t) (f := fun x => { x with phase := .closed }) (by simp)
    have h2 := (hl.same h1).modParty t (f := fun x => { x with pending := none }) fun _ _ => rfl
    rwa [modParty_modParty] at h2
  | detach object hobj ha => exact ⟨_, .detach object hobj ha, Same.refl _⟩

theorem Core.base (hst : Core P s a s') (h : Base P s) : Base P s' := by
  cases hst with
  | other x hx => exact h.other hx
  | @pop t m hc =>
    refine h.modParty_cont ?_ (by rw [Party.taking, hc]; rfl)
    rcases h.shape t with hs | hs | ⟨f, hf, hP, hs⟩
    · simp [hc] at hs
    · simp [hc] at hs
    · refine .inr (.inr ⟨f, hf, hP, .inl ?_⟩)
      rcases hs with hs | hs <;> simp_all
  | prio => exact h
  | acquire hs hc ha ho => exact h.acquire hs ha ho
  | nest hs hc ho hh =>
    exact Base.setHold (h.modParty_active hs hs (h.shape _)) ho (by simp) (Nat.succ_le_of_lt hh)
  | block hs hc ha ho hot hP =>
    exact h.block hs ha ho hot ⟨rfl, rfl⟩ ⟨rfl, rfl⟩ (.inr (.inr ⟨_, by simp, hP, .inr rfl⟩))
  | unnest ho hh hc =>
    have := h.hold_pos ho
    exact h.setHold ho (by omega) (by omega)
  | free hc ho hh hw => exact h.free hw
  | grant hc ha ho hh hw => exact h.grant ha hw
  | expire e he hw => exact h.unlink_modParty (by simp) (h.shape _)
  | wake hw => exact h.unlink_modParty (by simp) (h.shape _)
  | finish hs hc he => exact h.modParty_active (by simp [hs]) (by simp [hs]) (.inl rfl)
  | abort hs hc he ho => exact h.modParty_active (by simp [hs]) (by simp [hs]) (.inl rfl)
  | ceiling p => exact h.setCeiling p
  | close hlive hp => exact h.unlink_modParty (by simp) (h.shape _)
  | drop hlive hp ha ho => exact h.unlink_modParty (by simp) (h.shape _)
  | detach object hobj ha => exact h.detach hobj

/-- Every step keeps the invariant. -/
theorem Step.base (hst : Step P s a s') (h : Base P s) : Base P s' := by
  obtain ⟨x, hc, hs⟩ := hst.core h.toLinked
  exact (hc.base h).congr hs

end Protocol

end RtThread
