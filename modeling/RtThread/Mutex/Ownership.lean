import RtThread.Mutex.Refine

/-!
# Owners, hold counts and taken mutexes

The owner of a mutex, its hold count and the lists of taken mutexes always agree (`owner_iff_taken`). That the owner is
a live thread is not part of it: a thread that ends keeps its mutexes (`not_owner_live`).
-/

namespace RtThread

/-- The events of runs that use mutexes, and in which threads may end. -/
def Ev.isOwnership (ev : Ev) : Bool :=
  ev.isSched || ev.isMutex || match ev with
    | .exit | .delete _ | .resume _ | .changePriority _ _ | .mutexSetprioceiling _ _ | .mutexDetach _ _ => true
    | _ => false

namespace Kernel

variable {k k0 : Kernel} {ls : List (Ev × Option Ret)}

theorem isOtherWait_of_isOwnership {ev : Ev} (h : ev.isOwnership = true) : ev.isOtherWait = false := by
  cases ev <;> first | rfl | cases h

/-- In every state reached, of a mutex that is neither detached nor deleted: it is in the list of taken mutexes of its
owner, once, and in no other one; the owner holds it between `1` and `255` times; without owner nobody holds it and
nobody waits for it. -/
theorem owner_iff_taken (hb : Boot k0) (hr : KRun (fun _ ev => ev.isOwnership = true) k0 ls k) {m : MutexId}
    (ha : (k.mutex m).object = .attached) :
    (∀ t, (k.mutex m).owner = some t ↔ (k.takenObjectList t).count m = 1) ∧
    (∀ t, (k.takenObjectList t).count m ≤ 1) ∧
    (∀ t, (k.mutex m).owner = some t → 1 ≤ (k.mutex m).hold ∧ (k.mutex m).hold ≤ 255) ∧
    ((k.mutex m).owner = none ↔ (k.mutex m).hold = 0 ∧ k.tlist (.mutex m) = []) := by
  obtain ⟨I, -⟩ := hr.protocol_invariant (J := fun _ => True) hb trivial
    (fun _ _ I _ hok => I.fresh (isOtherWait_of_isOwnership hok)) (fun _ _ _ _ _ => trivial)
    fun _ _ _ _ _ _ _ _ _ _ => trivial
  have hbase := I.base
  have hcount (t : ThreadId) : (k.takenObjectList t).count m ≤ 1 :=
    List.nodup_iff_count_le_one.1 (hbase.taken_nodup t) m
  refine ⟨fun t => ?_, hcount, fun t ho => hbase.hold_pos ho, fun ho => ⟨hbase.hold_zero ho, ?_⟩, fun ⟨hh, _⟩ => ?_⟩
  · have hmem : m ∈ k.takenObjectList t ↔ (k.mutex m).object = .attached ∧ (k.mutex m).owner = some t := hbase.taken_iff
    rw [and_iff_right ha] at hmem
    rw [← hmem, ← List.count_pos_iff]
    have := hcount t
    omega
  · refine List.eq_nil_iff_forall_not_mem.2 fun t ht => ?_
    obtain ⟨o, ho', -⟩ := hbase.owned (m := m) ht
    rw [protocol_mutex, ho] at ho'
    cases ho'
  · cases ho : (k.mutex m).owner with
    | none => rfl
    | some t =>
      have := (hbase.hold_pos (m := m) ho).1
      rw [protocol_mutex] at this
      omega

/-- A thread of priority `20` owns a mutex, and one of priority `10` waits for it, with a timeout. -/
def contendedEvents : List Ev :=
  [.startup true 0, .schedulerStart, .mutexTake 0 0xffffffff#32 .uninterruptible, .startup true 1,
    .mutexTake 0 10#32 .uninterruptible]

def bootTwo : Kernel := boot 32 fun t => if t = 0 then 20 else 10

theorem boot_bootTwo : Boot bootTwo := boot_boot (by decide) fun t => by split <;> decide

/-- The state these events lead to. -/
def contended : Kernel := after 2 bootTwo contendedEvents

theorem contended_run {ok : Ev → Bool} (h : contendedEvents.all ok = true) :
    KRun (fun _ ev => ok ev = true) bootTwo (labels 2 bootTwo contendedEvents) contended :=
  KRun.of_exec _ _ _ (by decide) fun e he _ => List.all_eq_true.1 h e he

theorem owner_iff_taken_contended :
    (∀ t, (contended.mutex 0).owner = some t ↔ (contended.takenObjectList t).count 0 = 1) ∧
    (∀ t, (contended.takenObjectList t).count 0 ≤ 1) ∧
    (∀ t, (contended.mutex 0).owner = some t → 1 ≤ (contended.mutex 0).hold ∧ (contended.mutex 0).hold ≤ 255) ∧
    ((contended.mutex 0).owner = none ↔ (contended.mutex 0).hold = 0 ∧ contended.tlist (.mutex 0) = []) :=
  owner_iff_taken boot_bootTwo (contended_run (by decide)) (by decide)

/-- A thread takes a mutex and returns from its entry function. -/
def exitEvents : List Ev := [.startup true 0, .schedulerStart, .mutexTake 0 0xffffffff#32 .uninterruptible, .exit]

/-- A thread that has ended may still own a mutex. -/
theorem not_owner_live :
    ¬∀ (k0 k : Kernel) (ls : List (Ev × Option Ret)), Boot k0 → KRun (fun _ ev => ev.isOwnership = true) k0 ls k →
      ∀ m t, (k.mutex m).object = .attached → (k.mutex m).owner = some t → (k.thread t).stat ≠ .close := by
  intro h
  refine h bootTwo (after 2 bootTwo exitEvents) _ boot_bootTwo
    (KRun.of_exec _ _ _ (by decide) fun e he _ => List.all_eq_true.1 (by decide) e he) 0 0 ?_ ?_ ?_
  all_goals decide

end Kernel

end RtThread
