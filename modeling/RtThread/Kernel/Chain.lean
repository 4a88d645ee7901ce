import RtThread.Kernel.Mutex

/-!
# The chain of calls of `_thread_update_priority`

`Raise k t p k'`: the call for thread `t` with priority `p` ends in `k'`, one constructor for each way a call can
end. Statements about the function are proved by induction on it, with no fuel in sight.
-/

namespace RtThread

namespace Kernel

/-- A waiter moves to its place in the wait list of `m`, and the mutex takes the priority of the first one. -/
def moveWaiter (k : Kernel) (t : ThreadId) (m : MutexId) : Kernel :=
  mutexUpdatePriority { k with tlist := Links.insertSorted k.prio (Links.remove k.tlist t) (.mutex m) t } m

/-- The calls of `_thread_update_priority` from thread `t` on. -/
inductive Raise : Kernel → ThreadId → Nat → Kernel → Prop
  /-- The thread waits for no mutex that still exists. -/
  | stop {k k1 : Kernel} {t : ThreadId} {p : Nat} (hk1 : k1 = k.rtThreadControlChangePriority t p)
      (hstop : k1.suspended t → ∀ m, (k1.thread t).pendingObject = some m → (k1.mutex m).object = .detached) :
      Raise k t p k1
  /-- The owner of the mutex it waits for already has its priority. -/
  | last {k k1 k2 : Kernel} {t o : ThreadId} {m : MutexId} {p : Nat} (hk1 : k1 = k.rtThreadControlChangePriority t p)
      (hs : k1.suspended t) (hm : (k1.thread t).pendingObject = some m) (ha : (k1.mutex m).object = .attached)
      (hk2 : k2 = k1.moveWaiter t m) (ho : (k2.mutex m).owner = some o)
      (he : k2.threadGetMutexPriority o = k2.prio o) : Raise k t p k2
  /-- The owner follows. -/
  | next {k k1 k2 k' : Kernel} {t o : ThreadId} {m : MutexId} {p : Nat}
      (hk1 : k1 = k.rtThreadControlChangePriority t p)
      (hs : k1.suspended t) (hm : (k1.thread t).pendingObject = some m) (ha : (k1.mutex m).object = .attached)
      (hk2 : k2 = k1.moveWaiter t m) (ho : (k2.mutex m).owner = some o)
      (hne : k2.threadGetMutexPriority o ≠ k2.prio o) (hnext : Raise k2 o (k2.threadGetMutexPriority o) k') :
      Raise k t p k'

theorem Raise.of_threadUpdatePriority {fuel : Nat} {k k' : Kernel} {t : ThreadId} {p : Nat} {flag : SuspendFlag}
    (h : threadUpdatePriority fuel k t p flag = some k') : Raise k t p k' := by
  induction fuel generalizing k t p with
  | zero => cases h
  | succ fuel ih =>
    unfold threadUpdatePriority at h
    generalize hk1 : k.rtThreadControlChangePriority t p = k1 at h
    dsimp only at h
    split at h
    · rename_i hs
      split at h
      · rename_i hp
        cases h
        exact .stop hk1.symm fun _ m hm => by simp [hp] at hm
      · rename_i m hm
        split at h
        · cases h
        · rename_i hd
          cases h
          refine .stop hk1.symm fun _ m' hm' => ?_
          rw [hm] at hm'
          rw [← Option.some.inj hm']; exact hd
        · rename_i ha
          have hsusp : ipcListSuspend { k1 with tlist := Links.remove k1.tlist t } (.mutex m) t .prio flag =
              ({ k1 with tlist := Links.insertSorted k1.prio (Links.remove k1.tlist t) (.mutex m) t }, .eok) := by
            simp only [ipcListSuspend, suspended] at hs ⊢
            simp [hs]
          simp only [hsusp, ne_eq, not_true_eq_false, if_false] at h
          split at h
          · cases h
          · rename_i o ho
            split at h
            · rename_i hne
              exact .next hk1.symm hs hm ha rfl ho hne (ih h)
            · rename_i he
              cases h
              exact .last hk1.symm hs hm ha rfl ho (by simpa using he)
    · rename_i hs
      cases h
      exact .stop hk1.symm fun hs' => absurd hs' hs

end Kernel

end RtThread
