import Mathlib.Data.List.Basic
import RtThread.Drivers.DataQueue
import RtThread.Lib.Circular
import RtThread.Lib.Fifo

/-!
# The data queue is a bounded queue

Up to a size of `2 ^ 15` items the data queue is a queue of that many items, whatever its threads do, as long as none reads
an item or the length of a queue that has become empty since its test; the indices of a larger queue wrap too early
(`data_queue`).
-/

namespace RtThread.DataqueueState

open Fifo

def initial (queue : Nat → RtDataItem) (size lwm : Nat) (evtNotify : Bool) : DataqueueState where
  q := RtDataQueue.rtDataQueueInit queue size lwm evtNotify
  thread _ := ⟨.idle, .eok⟩

def Step (s : DataqueueState) (x : DataqueueEv × DataqueueRet) (s' : DataqueueState) : Prop :=
  s.step x.1 = some (s', x.2)

/-- The section of no peek, and of no `rt_data_queue_len`, finds the queue empty. -/
def Calm (s : DataqueueState) (x : DataqueueEv × DataqueueRet) (s' : DataqueueState) : Prop :=
  Step s x s' ∧ ∀ t, x.1 = .goOn t → (s.thread t).phase = .peeking ∨ (s.thread t).phase = .measuring → s.q.isEmpty = false

/-- What a step is for the queue. -/
def act : DataqueueEv × DataqueueRet → Act RtDataItem
  | (_, .push item .eok _) => .push item
  | (.push _ _ _, .push _ _ _) => .refuse
  | (_, .pop (some item) _ _) => .pop item
  | (.pop _ _, .pop none _ _) => .miss
  | (_, .peek (some item)) => .look item
  | (_, .peek none) => .miss
  | (_, .len n) => .count n
  | _ => .pass

/-- All but the lists of the suspended threads is the same. -/
def Keeps (q q' : RtDataQueue) : Prop :=
  ∃ pushList popList, q' = { q with suspendedPushList := pushList, suspendedPopList := popList }

/-- What the steps `ls` have made of the queue: the flags and the length are right, what was pushed is popped once and
in its order, and a step in which no push and no pop succeeds changes nothing. -/
structure Behaves (size : Nat) (ls : List (DataqueueEv × DataqueueRet)) (s : DataqueueState) : Prop where
  fifo : ∃ items, Runs.Run (Next size) [] (ls.map act) items ∧ pushed (ls.map act) = popped (ls.map act) ++ items ∧
    (s.q.isEmpty = true ↔ items.length = 0) ∧ (s.q.isFull = true ↔ items.length = size) ∧
    s.q.rtDataQueueLen = items.length
  keeps : ∀ x s', Step s x s' → (∀ item evt, x.2 ≠ .push item .eok evt) → (∀ item evt, x.2 ≠ .pop item .eok evt) →
    Keeps s.q s'.q

/-- The ring with the items it holds. -/
structure Stored (q : RtDataQueue) (items : List RtDataItem) : Prop where
  get_lt : q.getIndex < q.size
  put_eq : q.putIndex = (q.getIndex + items.length) % q.size
  content : Circular.content q.queue q.size q.getIndex items.length = items
  length_le : items.length ≤ q.size
  empty : q.isEmpty = true ↔ items.length = 0
  full : q.isFull = true ↔ items.length = q.size

variable {s s' : DataqueueState} {q q' : RtDataQueue} {items : List RtDataItem} {item : RtDataItem} {t size lwm : Nat}
  {timeout : BitVec 32} {x : DataqueueEv × DataqueueRet} {ls : List (DataqueueEv × DataqueueRet)} {evtNotify : Bool}
  {queue : Nat → RtDataItem}

theorem Keeps.refl : Keeps q q := ⟨_, _, rfl⟩

theorem Stored.keeps (h : Stored q items) (hk : Keeps q q') : Stored q' items := by
  obtain ⟨_, _, rfl⟩ := hk
  exact ⟨h.get_lt, h.put_eq, h.content, h.length_le, h.empty, h.full⟩

theorem Keeps.size_eq (hk : Keeps q q') : q'.size = q.size := by
  obtain ⟨_, _, rfl⟩ := hk
  rfl

/-- In a queue of up to `2 ^ 15` items an index runs through all of them. -/
theorem next_eq (hq : q.size ≤ 2 ^ 15) {i : Nat} (hi : i < q.size) : q.next i = (i + 1) % q.size := by
  rw [RtDataQueue.next, index15]
  rcases Nat.lt_or_eq_of_le (show i + 1 ≤ q.size from hi) with h | h
  · rw [Nat.mod_eq_of_lt (show i + 1 < 2 ^ 15 by omega), if_neg (by omega), Nat.mod_eq_of_lt h]
  · rw [h, Nat.mod_self]
    rcases Nat.lt_or_eq_of_le hq with h' | h'
    · rw [Nat.mod_eq_of_lt h', if_pos rfl]
    · rw [h', Nat.mod_self, if_neg (by decide)]

variable {n : Nat} {err : RtErr} {e : DataqueueEv} {evt : Option DataqueueEvent}

/-- The indices meet when the ring has turned once. -/
theorem add_mod_eq_self (hi : t < size) (hn : 0 < n) (hle : n ≤ size) : (t + n) % size = t ↔ n = size := by
  rw [Circular.add_mod hi hle]
  split_ifs <;> omega

theorem Stored.put (h : Stored q items) (hq : q.size ≤ 2 ^ 15) (hlt : items.length < q.size) (item : RtDataItem) :
    Stored (q.put item) (items ++ [item]) := by
  have hpos : 0 < q.size := Nat.lt_of_le_of_lt (Nat.zero_le _) h.get_lt
  have hput : q.putIndex < q.size := by
    rw [h.put_eq]
    exact Nat.mod_lt _ hpos
  have hnext : q.next q.putIndex = (q.getIndex + (items.length + 1)) % q.size := by
    rw [next_eq hq hput, h.put_eq, Nat.mod_add_mod, Nat.add_assoc]
  constructor
  · exact h.get_lt
  · rw [List.length_append, List.length_singleton]
    exact hnext
  · rw [List.length_append, List.length_singleton]
    change Circular.content (Function.update q.queue q.putIndex item) q.size q.getIndex (items.length + 1) = _
    rw [h.put_eq, Circular.content_push h.get_lt hlt, h.content]
  · rw [List.length_append, List.length_singleton]
    exact hlt
  · simp [RtDataQueue.put]
  · have hnot : q.isFull = false := by
      rw [← Bool.not_eq_true, h.full]
      omega
    change (if q.next q.putIndex = q.getIndex then true else q.isFull) = true ↔ _ = q.size
    rw [List.length_append, List.length_singleton, hnext, hnot]
    have hmeet := add_mod_eq_self h.get_lt (Nat.succ_pos items.length) hlt
    simp [hmeet]

theorem Stored.get (h : Stored q (item :: items)) (hq : q.size ≤ 2 ^ 15) :
    Stored q.get items ∧ q.queue q.getIndex = item := by
  have hpos : 0 < q.size := Nat.lt_of_le_of_lt (Nat.zero_le _) h.get_lt
  have hlen : items.length + 1 ≤ q.size := h.length_le
  have hnext : q.next q.getIndex = (q.getIndex + 1) % q.size := next_eq hq h.get_lt
  have hnlt : q.next q.getIndex < q.size := by
    rw [hnext]
    exact Nat.mod_lt _ hpos
  have hput : q.putIndex = (q.next q.getIndex + items.length) % q.size := by
    rw [h.put_eq, hnext, Nat.mod_add_mod, List.length_cons, Nat.add_assoc, Nat.add_comm 1]
  have hcontent := h.content
  rw [List.length_cons, Circular.content_pop h.get_lt] at hcontent
  obtain ⟨hfirst, hrest⟩ := List.cons.inj hcontent
  refine ⟨?_, hfirst⟩
  constructor
  · exact hnlt
  · exact hput
  · change Circular.content q.queue q.size (q.next q.getIndex) items.length = items
    rw [hnext]
    exact hrest
  · exact Nat.le_of_succ_le hlen
  · have hnot : q.isEmpty = false := by
      rw [← Bool.not_eq_true, h.empty]
      simp
    change (if q.putIndex = q.next q.getIndex then true else q.isEmpty) = true ↔ _
    rw [hput, hnot]
    rcases Nat.eq_zero_or_pos items.length with h0 | h0
    · rw [h0, Nat.add_zero, Nat.mod_eq_of_lt hnlt]
      simp
    · have hmeet := add_mod_eq_self hnlt h0 (by omega)
      rw [if_neg fun hc => by have := hmeet.1 hc; omega]
      simp only [Bool.false_eq_true, false_iff]
      omega
  · change false = true ↔ items.length = q.size
    simp only [Bool.false_eq_true, false_iff]
    omega

/-- The section of `rt_data_queue_len` counts the items, if there are any; an empty queue it takes for a full one. -/
theorem Stored.lenSection (h : Stored q items) (hq : q.size ≤ 2 ^ 15) :
    q.lenSection = if items.length = 0 then q.size else items.length := by
  have h1 := h.get_lt
  have h2 := h.length_le
  have h3 := h.put_eq
  rw [Circular.add_mod h1 h2] at h3
  rw [RtDataQueue.lenSection]
  split_ifs at h3 ⊢ with hput hempty
  all_goals rw [Nat.mod_eq_of_lt (by omega)]
  all_goals omega

/-- `rt_data_queue_len` counts the items. -/
theorem Stored.len (h : Stored q items) (hq : q.size ≤ 2 ^ 15) : q.rtDataQueueLen = items.length := by
  rw [RtDataQueue.rtDataQueueLen]
  by_cases he : q.isEmpty = true
  · rw [if_pos he, h.empty.1 he]
  · rw [if_neg he, h.lenSection hq, if_neg fun hc => he (h.empty.2 hc)]

/-! ## Steps -/

theorem keeps_setPhase {phase : DataqueuePhase} : Keeps s.q (s.setPhase t phase).q := Keeps.refl

theorem keeps_wake : Keeps s.q (s.wake t err).q := ⟨_, _, rfl⟩

theorem pushLoop_full (t : Nat) (item : RtDataItem) (timeout : BitVec 32) (hf : s.q.isFull = true) : Keeps s.q (s.pushLoop t item timeout).1.q ∧
    ((s.pushLoop t item timeout).2 = .push item .etimeout none ∨ (s.pushLoop t item timeout).2 = .blocked) := by
  rw [pushLoop, if_pos hf]
  split
  · exact ⟨keeps_setPhase, .inl rfl⟩
  · exact ⟨⟨_, _, rfl⟩, .inr rfl⟩

theorem pushLoop_put (t : Nat) (item : RtDataItem) (timeout : BitVec 32) (hf : s.q.isFull = false) : Keeps (s.q.put item) (s.pushLoop t item timeout).1.q ∧
    ∃ evt, (s.pushLoop t item timeout).2 = .push item .eok evt := by
  rw [pushLoop, if_neg (by simp [hf])]
  dsimp only
  split
  · exact ⟨keeps_wake, _, rfl⟩
  · exact ⟨Keeps.refl, _, rfl⟩

theorem popLoop_empty (t : Nat) (timeout : BitVec 32) (he : s.q.isEmpty = true) : Keeps s.q (s.popLoop t timeout).1.q ∧
    ((s.popLoop t timeout).2 = .pop none .etimeout none ∨ (s.popLoop t timeout).2 = .blocked) := by
  rw [popLoop, if_pos he]
  split
  · exact ⟨keeps_setPhase, .inl rfl⟩
  · exact ⟨⟨_, _, rfl⟩, .inr rfl⟩

theorem popLoop_get (t : Nat) (timeout : BitVec 32) (he : s.q.isEmpty = false) : Keeps s.q.get (s.popLoop t timeout).1.q ∧
    ∃ evt, (s.popLoop t timeout).2 = .pop (some (s.q.queue s.q.getIndex)) .eok evt := by
  rw [popLoop, if_neg (by simp [he])]
  dsimp only
  split
  · split
    · exact ⟨keeps_wake, _, rfl⟩
    · exact ⟨Keeps.refl, _, rfl⟩
  · exact ⟨Keeps.refl, _, rfl⟩

/-- What a step does: an item is put or got, or the ring stays. -/
theorem step_cases (hs : Step s x s') :
    (∃ item evt, x.2 = .push item .eok evt ∧ s.q.isFull = false ∧ Keeps (s.q.put item) s'.q) ∨
    (∃ evt, x.2 = .pop (some (s.q.queue s.q.getIndex)) .eok evt ∧ s.q.isEmpty = false ∧ Keeps s.q.get s'.q) ∨
    Keeps s.q s'.q ∧
      (act x = .pass ∨ act x = .refuse ∧ s.q.isFull = true ∨ (act x = .miss ∨ act x = .count 0) ∧ s.q.isEmpty = true ∨
        ∃ t, x.1 = .goOn t ∧ ((s.thread t).phase = .peeking ∧ act x = .look (s.q.queue s.q.getIndex) ∨
          (s.thread t).phase = .measuring ∧ act x = .count s.q.lenSection)) ∧
      (∀ item evt, x.2 ≠ .push item .eok evt) ∧ ∀ item evt, x.2 ≠ .pop item .eok evt := by
  obtain ⟨e, r⟩ := x
  have hpush : ∀ {t item timeout}, s.pushLoop t item timeout = (s', r) →
      (∃ item evt, r = .push item .eok evt ∧ s.q.isFull = false ∧ Keeps (s.q.put item) s'.q) ∨
      Keeps s.q s'.q ∧ s.q.isFull = true ∧ (r = .push item .etimeout none ∨ r = .blocked) := by
    intro t item timeout h
    cases hf : s.q.isFull with
    | true =>
      have hfull := pushLoop_full t item timeout hf
      rw [h] at hfull
      exact .inr ⟨hfull.1, rfl, hfull.2⟩
    | false =>
      obtain ⟨hk, evt, hr⟩ := pushLoop_put t item timeout hf
      rw [h] at hk hr
      exact .inl ⟨item, evt, hr, rfl, hk⟩
  have hpop : ∀ {t timeout}, s.popLoop t timeout = (s', r) →
      (∃ evt, r = .pop (some (s.q.queue s.q.getIndex)) .eok evt ∧ s.q.isEmpty = false ∧ Keeps s.q.get s'.q) ∨
      Keeps s.q s'.q ∧ s.q.isEmpty = true ∧ (r = .pop none .etimeout none ∨ r = .blocked) := by
    intro t timeout h
    cases he : s.q.isEmpty with
    | true =>
      have hempty := popLoop_empty t timeout he
      rw [h] at hempty
      exact .inr ⟨hempty.1, rfl, hempty.2⟩
    | false =>
      obtain ⟨hk, evt, hr⟩ := popLoop_get t timeout he
      rw [h] at hk hr
      exact .inl ⟨evt, hr, rfl, hk⟩
  cases e with
  | push t item timeout =>
    simp only [Step, step, Option.ite_none_right_eq_some, Option.some.injEq] at hs
    rcases hpush hs.2 with h | ⟨hk, hf, rfl | rfl⟩
    · exact .inl h
    · exact .inr (.inr ⟨hk, .inr (.inl ⟨rfl, hf⟩), by simp, by simp⟩)
    · exact .inr (.inr ⟨hk, .inl rfl, by simp, by simp⟩)
  | pop t timeout =>
    simp only [Step, step, Option.ite_none_right_eq_some, Option.some.injEq] at hs
    rcases hpop hs.2 with h | ⟨hk, he, rfl | rfl⟩
    · exact .inr (.inl h)
    · exact .inr (.inr ⟨hk, .inr (.inr (.inl ⟨.inl rfl, he⟩)), by simp, by simp⟩)
    · exact .inr (.inr ⟨hk, .inl rfl, by simp, by simp⟩)
  | peek t =>
    simp only [Step, step, Option.ite_none_right_eq_some] at hs
    obtain ⟨-, hs⟩ := hs
    split at hs
    · cases hs
      exact .inr (.inr ⟨Keeps.refl, .inr (.inr (.inl ⟨.inl rfl, ‹_›⟩)), by simp, by simp⟩)
    · cases hs
      exact .inr (.inr ⟨keeps_setPhase, .inl rfl, by simp, by simp⟩)
  | len t =>
    simp only [Step, step, Option.ite_none_right_eq_some] at hs
    obtain ⟨-, hs⟩ := hs
    split at hs
    · cases hs
      exact .inr (.inr ⟨Keeps.refl, .inr (.inr (.inl ⟨.inr rfl, ‹_›⟩)), by simp, by simp⟩)
    · cases hs
      exact .inr (.inr ⟨keeps_setPhase, .inl rfl, by simp, by simp⟩)
  | timeout t =>
    simp only [Step, step] at hs
    split at hs
    · simp only [Option.ite_none_right_eq_some, Option.some.injEq, Prod.mk.injEq] at hs
      obtain ⟨-, rfl, rfl⟩ := hs
      exact .inr (.inr ⟨keeps_wake, .inl rfl, by simp, by simp⟩)
    · cases hs
  | goOn t =>
    change s.goOn t = some (s', r) at hs
    rw [goOn] at hs
    cases hp : (s.thread t).phase with
    | pushWoken item timeout =>
      rw [hp] at hs
      have hgo := Option.some.inj hs
      rw [pushGoOn] at hgo
      split at hgo
      · rcases hpush hgo with h | ⟨hk, hf, rfl | rfl⟩
        · exact .inl h
        · exact .inr (.inr ⟨hk, .inl rfl, by simp, by simp⟩)
        · exact .inr (.inr ⟨hk, .inl rfl, by simp, by simp⟩)
      · rename_i herr
        cases hgo
        refine .inr (.inr ⟨keeps_setPhase, .inl ?_, by simpa using herr, by simp⟩)
        cases hval : (s.thread t).error with
        | eok => exact absurd hval herr
        | error | etimeout | efull | eintr | einval => rfl
    | popWoken timeout =>
      rw [hp] at hs
      have hgo := Option.some.inj hs
      rw [popGoOn] at hgo
      split at hgo
      · rcases hpop hgo with h | ⟨hk, he, rfl | rfl⟩
        · exact .inr (.inl h)
        · exact .inr (.inr ⟨hk, .inl rfl, by simp, by simp⟩)
        · exact .inr (.inr ⟨hk, .inl rfl, by simp, by simp⟩)
      · rename_i herr
        cases hgo
        exact .inr (.inr ⟨keeps_setPhase, .inl rfl, by simp, by simpa using herr⟩)
    | peeking =>
      rw [hp] at hs
      cases hs
      exact .inr (.inr ⟨keeps_setPhase, .inr (.inr (.inr ⟨t, rfl, .inl ⟨hp, rfl⟩⟩)), by simp, by simp⟩)
    | measuring =>
      rw [hp] at hs
      cases hs
      exact .inr (.inr ⟨keeps_setPhase, .inr (.inr (.inr ⟨t, rfl, .inr ⟨hp, rfl⟩⟩)), by simp, by simp⟩)
    | idle | pushing _ _ | popping _ =>
      rw [hp] at hs
      cases hs

theorem act_pop : act (e, .pop (some item) err evt) = .pop item := rfl

/-- A step of the ring is a step of the bounded queue. -/
theorem Stored.step (h : Stored s.q items) (hq : s.q.size ≤ 2 ^ 15) (hs : Calm s x s') :
    ∃ items', Next s.q.size items (act x) items' ∧ Stored s'.q items' ∧ s'.q.size = s.q.size := by
  obtain ⟨hs, hcalm⟩ := hs
  obtain ⟨e, r⟩ := x
  rcases step_cases hs with ⟨item, evt, rfl, hf, hk⟩ | ⟨evt, rfl, he, hk⟩ | ⟨hk, hact, -, -⟩
  · have hlt : items.length < s.q.size := by
      refine Nat.lt_of_le_of_ne h.length_le fun heq => ?_
      rw [h.full.2 heq] at hf
      cases hf
    refine ⟨items ++ [item], ?_, (h.put hq hlt item).keeps hk, hk.size_eq⟩
    exact ⟨hlt, rfl⟩
  · cases items with
    | nil =>
      rw [h.empty.2 rfl] at he
      cases he
    | cons first rest =>
      obtain ⟨hrest, hfirst⟩ := h.get hq
      refine ⟨rest, ?_, hrest.keeps hk, hk.size_eq⟩
      rw [act_pop, hfirst]
      exact rfl
  · refine ⟨items, ?_, h.keeps hk, hk.size_eq⟩
    rcases hact with ha | ⟨ha, hf⟩ | ⟨ha | ha, he⟩ | ⟨t, hgo, ⟨hp, ha⟩ | ⟨hp, ha⟩⟩
    · rw [ha]
      exact rfl
    · rw [ha]
      exact ⟨h.full.1 hf, rfl⟩
    · rw [ha]
      exact ⟨List.length_eq_zero_iff.1 (h.empty.1 he), rfl⟩
    · rw [ha]
      exact ⟨h.empty.1 he, rfl⟩
    · rw [ha]
      refine ⟨?_, rfl⟩
      have hne := hcalm t hgo (.inl hp)
      cases items with
      | nil =>
        rw [h.empty.2 rfl] at hne
        cases hne
      | cons first rest =>
        rw [(h.get hq).2]
        rfl
    · have hne := hcalm t hgo (.inr hp)
      have hpos : items.length ≠ 0 := fun hc => by
        rw [h.empty.2 hc] at hne
        cases hne
      rw [ha, h.lenSection hq, if_neg hpos]
      exact ⟨rfl, rfl⟩

theorem stored_initial (h0 : 0 < size) : Stored (initial queue size lwm evtNotify).q [] where
  get_lt := h0
  put_eq := (Nat.zero_mod _).symm
  content := rfl
  length_le := Nat.zero_le _
  empty := by simp [initial, RtDataQueue.rtDataQueueInit]
  full := by
    simp only [initial, RtDataQueue.rtDataQueueInit, Bool.false_eq_true, List.length_nil, false_iff]
    omega

/-- A run of the ring is a run of the bounded queue. -/
theorem stored_run (h0 : 0 < size) (hsize : size ≤ 2 ^ 15)
    (hr : Runs.Run Calm (initial queue size lwm evtNotify) ls s) :
    ∃ items, Runs.Run (Next size) [] (ls.map act) items ∧ Stored s.q items ∧ s.q.size = size := by
  refine hr.history (I := fun ls s => ∃ items, Runs.Run (Next size) [] (ls.map act) items ∧ Stored s.q items ∧
    s.q.size = size) ⟨[], .nil, stored_initial h0, rfl⟩ ?_
  rintro ls s x s' ⟨items, hrun, hst, hsz⟩ hs
  obtain ⟨items', hnext, hst', hsz'⟩ := hst.step (by rw [hsz]; exact hsize) hs
  rw [hsz] at hnext
  refine ⟨items', ?_, hst', hsz'.trans hsz⟩
  rw [List.map_append]
  exact .snoc hrun hnext

theorem behaves_of_calm (h0 : 0 < size) (hsize : size ≤ 2 ^ 15)
    (hr : Runs.Run Calm (initial queue size lwm evtNotify) ls s) : Behaves size ls s := by
  obtain ⟨items, hrun, hst, hsz⟩ := stored_run h0 hsize hr
  constructor
  · refine ⟨items, hrun, run_order hrun, hst.empty, ?_, hst.len (by rw [hsz]; exact hsize)⟩
    rw [← hsz]
    exact hst.full
  · intro x s' hs hpush hpop
    rcases step_cases hs with ⟨item, evt, hx, -⟩ | ⟨evt, hx, -⟩ | ⟨hk, -⟩
    · exact absurd hx (hpush item evt)
    · exact absurd hx (hpop _ evt)
    · exact hk

/-- In a run that is one of the bounded queue no section finds it empty since its test. -/
theorem calm_of_fifo (h0 : 0 < size) (hsize : size ≤ 2 ^ 15) (hr : Runs.Run Step (initial queue size lwm evtNotify) ls s)
    (hf : Runs.Run (Next size) [] (ls.map act) items) : Runs.Run Calm (initial queue size lwm evtNotify) ls s := by
  induction hr generalizing items with
  | nil => exact .nil
  | @snoc ls x s1 s2 hr hs ih =>
    rw [List.map_append] at hf
    obtain ⟨before, hbefore, hnext⟩ := hf.last
    have hcalm := ih hbefore
    refine .snoc hcalm ⟨hs, ?_⟩
    intro t hgo hp
    obtain ⟨items', hrun, hst, hsz⟩ := stored_run h0 hsize hcalm
    obtain rfl := run_unique hrun hbefore
    rw [← Bool.not_eq_true, hst.empty]
    obtain ⟨e, r⟩ := x
    obtain rfl : e = .goOn t := hgo
    change s1.goOn t = some (s2, r) at hs
    intro hnil
    rcases hp with hp | hp
    · rw [goOn, hp] at hs
      cases hs
      obtain ⟨hhead, -⟩ := hnext
      rw [List.length_eq_zero_iff.1 hnil] at hhead
      cases hhead
    · rw [goOn, hp] at hs
      cases hs
      have hcount : items'.length = s1.q.lenSection := hnext.1
      rw [hst.lenSection (by rw [hsz]; exact hsize), if_pos hnil, hsz] at hcount
      omega

/-! ## Larger queues -/

/-- What a push of thread 0 returns when there is room and nobody waits. -/
def pushEv (item : RtDataItem) (evtNotify : Bool) : DataqueueEv × DataqueueRet :=
  (.push 0 item 0, .push item .eok (if evtNotify then some .push else none))

/-- `put_index` is back at its start after `2 ^ 15` pushes. -/
theorem fill (queue : Nat → RtDataItem) (lwm : Nat) (evtNotify : Bool) (item : RtDataItem) (hsize : 2 ^ 15 < size)
    (hn : n ≤ 2 ^ 15) :
    ∃ s, Runs.Run Calm (initial queue size lwm evtNotify) (List.replicate n (pushEv item evtNotify)) s ∧
      (s.thread 0).phase = .idle ∧ s.q.size = size ∧ s.q.getIndex = 0 ∧ s.q.putIndex = n % 2 ^ 15 ∧
      s.q.isFull = decide (n = 2 ^ 15) ∧ s.q.suspendedPopList = [] ∧ s.q.evtNotify = evtNotify := by
  induction n with
  | zero => exact ⟨initial queue size lwm evtNotify, .nil, rfl, rfl, rfl, rfl, rfl, rfl, rfl⟩
  | succ n ih =>
    obtain ⟨s, hrun, hidle, hsz, hget, hput, hfull, hpop, hnotify⟩ := ih (by omega)
    have hnot : s.q.isFull = false := by
      rw [hfull]
      exact decide_eq_false (by omega)
    have hnext : s.q.next s.q.putIndex = (n + 1) % 2 ^ 15 := by
      have hi : index15 (s.q.putIndex + 1) = (n + 1) % 2 ^ 15 := by rw [index15, hput, Nat.mod_add_mod]
      rw [RtDataQueue.next, hi, hsz, if_neg (by omega)]
    have hstep : s.step (.push 0 item 0) =
        some ({ s.setPhase 0 .idle with q := s.q.put item }, (pushEv item evtNotify).2) := by
      rw [step, if_pos hidle, pushLoop, if_neg (by simp [hnot])]
      have hpop' : (s.q.put item).suspendedPopList = [] := hpop
      have hnotify' : (s.q.put item).evtNotify = evtNotify := hnotify
      simp only [hpop', notify, hnotify', pushEv]
    refine ⟨{ s.setPhase 0 .idle with q := s.q.put item }, ?_, ?_, hsz, hget, hnext, ?_, hpop, hnotify⟩
    · rw [List.replicate_succ']
      refine .snoc hrun ⟨hstep, ?_⟩
      intro t hgo
      cases hgo
    · simp [setPhase, setThread]
    · change (if s.q.next s.q.putIndex = s.q.getIndex then true else s.q.isFull) = decide (n + 1 = 2 ^ 15)
      rw [hnext, hget, hnot]
      rcases Nat.lt_or_eq_of_le hn with h | h
      · rw [Nat.mod_eq_of_lt h, if_neg (by omega), decide_eq_false (by omega)]
      · rw [h, Nat.mod_self, if_pos rfl, decide_eq_true rfl]

theorem pushed_replicate (item : RtDataItem) (evtNotify : Bool) (n : Nat) :
    pushed ((List.replicate n (pushEv item evtNotify)).map act) = List.replicate n item ∧
      popped ((List.replicate n (pushEv item evtNotify)).map act) = [] := by
  induction n with
  | zero => exact ⟨rfl, rfl⟩
  | succ n ih =>
    exact ⟨congrArg (item :: ·) ih.1, ih.2⟩

/-- A larger queue is full with `2 ^ 15` items. -/
theorem not_behaves_fill (hsize : 2 ^ 15 < size)
    (hb : Behaves size (List.replicate (2 ^ 15) (pushEv item evtNotify)) s) (hfull : s.q.isFull = true) : False := by
  obtain ⟨items, -, horder, -, hf, -⟩ := hb.fifo
  obtain ⟨hpush, hpop⟩ := pushed_replicate item evtNotify (2 ^ 15)
  rw [hpush, hpop, List.nil_append] at horder
  have hlen := hf.1 hfull
  rw [← horder, List.length_replicate] at hlen
  omega

/-- The queue is a queue of `size` items, in the runs where no section finds it empty since its test and in no others, if and
only if its size fits the indices. -/
theorem data_queue (queue : Nat → RtDataItem) (size lwm : Nat) (evtNotify : Bool) (h0 : 0 < size) :
    (∀ ls s, Runs.Run Step (initial queue size lwm evtNotify) ls s →
      (Behaves size ls s ↔ Runs.Run Calm (initial queue size lwm evtNotify) ls s)) ↔ size ≤ 2 ^ 15 := by
  constructor
  · intro h
    by_contra hlt
    obtain ⟨s, hrun, -, -, -, -, hfull, -⟩ := fill queue lwm evtNotify ⟨0, 0⟩
      (Nat.lt_of_not_le hlt) (Nat.le_refl _)
    have hb := (h _ s (hrun.mono fun _ _ _ hs => hs.1)).2 hrun
    exact not_behaves_fill (Nat.lt_of_not_le hlt) hb hfull
  · intro hsize ls s hr
    constructor
    · intro hb
      obtain ⟨items, hf, -⟩ := hb.fifo
      exact calm_of_fifo h0 hsize hr hf
    · intro hcalm
      exact behaves_of_calm h0 hsize hcalm

theorem data_queue_four : ∃ s, Runs.Run Step (initial (fun _ => ⟨0, 0⟩) 4 2 true) [pushEv ⟨7, 4⟩ true] s ∧
    Behaves 4 [pushEv ⟨7, 4⟩ true] s := by
  obtain ⟨s, hs⟩ : ∃ s, Step (initial (fun _ => ⟨0, 0⟩) 4 2 true) (pushEv ⟨7, 4⟩ true) s := ⟨_, rfl⟩
  have hcalm : Calm (initial (fun _ => ⟨0, 0⟩) 4 2 true) (pushEv ⟨7, 4⟩ true) s := ⟨hs, fun _ h => nomatch h⟩
  refine ⟨s, .snoc .nil hs, ?_⟩
  exact ((data_queue (fun _ => ⟨0, 0⟩) 4 2 true (by decide)).2 (by decide) _ s (.snoc .nil hs)).2 (.snoc .nil hcalm)

/-- An item is popped by another thread between the test and the read of a peek. -/
def stalePeek : List (DataqueueEv × DataqueueRet) :=
  [(.push 0 ⟨7, 4⟩ 0, .push ⟨7, 4⟩ .eok none), (.peek 1, .done), (.pop 2 0, .pop (some ⟨7, 4⟩) .eok none),
    (.goOn 1, .peek (some ⟨7, 4⟩))]

/-- A queue of 40000 items is full with 32768, and a peek gives an item that has been popped. -/
theorem data_queue_defects :
    (∃ ls s, Runs.Run Step (initial (fun _ => ⟨0, 0⟩) 40000 0 false) ls s ∧ s.q.isFull = true ∧
      (pushed (ls.map act)).length = 32768 ∧ popped (ls.map act) = [] ∧ ¬ Behaves 40000 ls s) ∧
    ∃ s, Runs.Run Step (initial (fun _ => ⟨0, 0⟩) 1 0 false) stalePeek s ∧ ¬ Behaves 1 stalePeek s := by
  constructor
  · obtain ⟨s, hrun, -, -, -, -, hfull, -⟩ := fill (fun _ => ⟨0, 0⟩) 0 false ⟨0, 0⟩
      (show 2 ^ 15 < 40000 by decide) (Nat.le_refl _)
    obtain ⟨hpush, hpop⟩ := pushed_replicate ⟨0, 0⟩ false (2 ^ 15)
    refine ⟨_, s, hrun.mono fun _ _ _ hs => hs.1, hfull, ?_, hpop, fun hb => ?_⟩
    · rw [hpush, List.length_replicate]
      decide
    · exact not_behaves_fill (by decide) hb hfull
  · obtain ⟨s, hs⟩ : ∃ s, Runs.exec step (initial (fun _ => ⟨0, 0⟩) 1 0 false)
        [.push 0 ⟨7, 4⟩ 0, .peek 1, .pop 2 0, .goOn 1] = some (s, stalePeek) := ⟨_, rfl⟩
    refine ⟨s, Runs.Run.of_exec (fun _ _ _ _ h (_ : True) => h) hs fun _ _ => trivial, fun hb => ?_⟩
    obtain ⟨items, hf, -⟩ := hb.fifo
    have hlast : Runs.Run (Next 1) [] ([.push ⟨7, 4⟩, .pass, .pop ⟨7, 4⟩] ++ [Act.look ⟨7, 4⟩]) items := hf
    obtain ⟨before, hbefore, hhead, -⟩ := hlast.last
    have horder := run_order hbefore
    obtain rfl : before = [] := List.append_cancel_left (show [⟨7, 4⟩] ++ before = [⟨7, 4⟩] ++ [] from horder.symm)
    cases hhead

end RtThread.DataqueueState
