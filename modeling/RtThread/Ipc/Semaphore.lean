import RtThread.Ipc.Apart
import RtThread.Ipc.Refine

/-!
# Permits of a semaphore

A run with a `Ledger`: the releases that returned `RT_EOK`, the takes that were granted, and the threads whose call of
`_rt_sem_take` was granted and has not returned yet. A take is granted when it decrements `value`, or when a release
takes its thread off the wait list (`grantee`). `value` and the ledger balance in every state (`sem_conservation`).
-/

namespace RtThread

/-- What was done with one semaphore. -/
structure Ledger where
  released : Nat
  granted : Nat
  owed : ThreadId → Bool

def Ledger.empty : Ledger := { released := 0, granted := 0, owed := fun _ => false }

/-- The thread a step grants a take of the semaphore `i` to: `value` goes from `v` to `v'`, and the wait list from `xs`
to `xs'`. -/
def grantee (i : SemId) (v v' : Nat) (xs xs' : List ThreadId) : Option Ret → Option ThreadId
  | some (.semTake t j _) => if j = i ∧ v' < v then some t else none
  | some (.semRelease j _) => if j = i then xs.find? (· ∉ xs') else none
  | _ => none

/-- The ledger after a step that grants the take of `g` and shows `r`. -/
def Ledger.next (l : Ledger) (i : SemId) (g : Option ThreadId) (r : Option Ret) : Ledger where
  released := if r = some (.semRelease i .eok) then l.released + 1 else l.released
  granted := if g.isSome then l.granted + 1 else l.granted
  owed t :=
    match r with
    | some (.semTake u j _) => if u = t ∧ j = i then false else l.owed t || g = some t
    | _ => l.owed t || g = some t

namespace Waits

variable {s s' : Waits} {i : SemId} {v0 : Nat} {l : Ledger} {o : Obj} {t : ThreadId} {ev : Ev} {r : Option Ret}

/-- The thread is in a take that was granted. -/
def Granted (s : Waits) (i : SemId) (t : ThreadId) : Prop :=
  (s.waiter t).calls = [.semTake i] ∧ (s.waiter t).error = .eok

/-- The semaphore and the ledger agree. -/
structure Balanced (i : SemId) (v0 : Nat) (l : Ledger) (s : Waits) : Prop where
  balance : (s.objects.sem i).value + l.granted = v0 + l.released
  le_max : (s.objects.sem i).value ≤ Kernel.semValueMax
  empty : 0 < (s.objects.sem i).value → s.list (.sem i) = []
  owed_iff : ∀ t, l.owed t = true ↔ s.Granted i t

/-- The grantee of a step. -/
def semGrantee (i : SemId) (s s' : Waits) (r : Option Ret) : Option ThreadId :=
  grantee i (s.objects.sem i).value (s'.objects.sem i).value (s.list (.sem i)) (s'.list (.sem i)) r

/-- A take returns `RT_EOK` if and only if it was granted, in this step or before. -/
def TakesRight (i : SemId) (l : Ledger) (g : Option ThreadId) (r : Option Ret) : Prop :=
  ∀ t err, r = some (.semTake t i err) → (err = .eok ↔ l.owed t = true ∨ g = some t)

/-! ## Steps that are nothing to the semaphore -/

theorem semGrantee_of_obj (hr : ∀ x ∈ r, x.obj ≠ some (.sem i)) : semGrantee i s s' r = none := by
  unfold semGrantee grantee
  split
  · rename_i t j _
    have hj : j ≠ i := by rintro rfl; exact hr _ rfl rfl
    rw [if_neg fun h => hj h.1]
  · rename_i j _
    have hj : j ≠ i := by rintro rfl; exact hr _ rfl rfl
    rw [if_neg hj]
  · rfl

theorem next_of_obj (hr : ∀ x ∈ r, x.obj ≠ some (.sem i)) : l.next i none r = l := by
  have hrel : r ≠ some (.semRelease i .eok) := by rintro rfl; exact hr _ rfl rfl
  unfold Ledger.next
  congr 1
  · rw [if_neg hrel]
  · funext t
    split
    · rename_i u j _
      have hj : j ≠ i := by rintro rfl; exact hr _ rfl rfl
      rw [if_neg fun h => hj h.2]; simp
    · simp

theorem Balanced.apart (hb : Balanced i v0 l s) (ha : Apart o s s') (ho : o ≠ .sem i) : Balanced i v0 l s' := by
  have hsem : s'.objects.sem i = s.objects.sem i := ha.objects (.sem i) ho.symm
  have hlist : s'.list (.sem i) = s.list (.sem i) := ha.list _ (by simpa [ListHead.obj] using ho.symm)
  refine ⟨by rw [hsem]; exact hb.balance, by rw [hsem]; exact hb.le_max, by rw [hsem, hlist]; exact hb.empty,
    fun t => ?_⟩
  rw [hb.owed_iff]
  have hf : (Frame.semTake i).obj ≠ some o := by simpa [Frame.obj] using ho.symm
  have hcalls := ha.calls (c := .thread t) hf
  rw [calls_thread, calls_thread] at hcalls
  constructor
  · rintro ⟨hc, he⟩
    rw [Granted, ha.waiter hc hf]
    exact ⟨hc, he⟩
  · rintro ⟨hc, he⟩
    have hc' := hcalls.1 hc
    rw [ha.waiter hc' hf] at he
    exact ⟨hc', he⟩

/-- A step on another object. -/
theorem Balanced.elsewhere (hb : Balanced i v0 l s) (ha : Apart o s s') (ho : o ≠ .sem i)
    (hr : ∀ x ∈ r, x.obj = some o) :
    Balanced i v0 (l.next i (semGrantee i s s' r) r) s' ∧ TakesRight i l (semGrantee i s s' r) r := by
  have hr' : ∀ x ∈ r, x.obj ≠ some (.sem i) := fun x hx => by rw [hr x hx]; simpa using ho
  rw [semGrantee_of_obj hr', next_of_obj hr']
  refine ⟨hb.apart ha ho, fun t err he => ?_⟩
  exact absurd rfl (hr' _ he)

theorem Balanced.quiet (hb : Balanced i v0 l s) (hq : Quiet ev s s') (hr : ∀ x ∈ r, Idle s s' x) :
    Balanced i v0 (l.next i (semGrantee i s s' r) r) s' ∧ TakesRight i l (semGrantee i s s' r) r := by
  have hg : semGrantee i s s' r = none := by
    unfold semGrantee grantee
    split
    · rw [hq.objects, if_neg fun h => lt_irrefl _ h.2]
    · rename_i j e
      split
      · rw [(hr _ rfl).same rfl rfl]; simp
      · rfl
    · rfl
  have hidle (t : ThreadId) (err : RtErr) (he : r = some (.semTake t i err)) : err ≠ .eok ∧ l.owed t = false := by
    subst he
    have hi := hr _ rfl
    refine ⟨by simpa [Ret.acts] using hi.acts, ?_⟩
    rw [← Bool.not_eq_true, hb.owed_iff]
    rintro ⟨hc, -⟩
    have h0 := hi.calls (.thread t) rfl
    rw [calls_thread, hc] at h0
    cases h0
  have hnext : l.next i none r = l := by
    unfold Ledger.next
    congr 1
    · refine if_neg fun he => ?_
      have hi := (hr _ he).acts
      simp [Ret.acts] at hi
    · funext t
      split
      · rename_i u j err
        split
        · rename_i he
          obtain ⟨rfl, rfl⟩ := he
          exact (hidle u err rfl).2.symm
        · simp
      · simp
  rw [hg, hnext]
  refine ⟨⟨by rw [hq.objects]; exact hb.balance, by rw [hq.objects]; exact hb.le_max, fun hv => ?_, fun t => ?_⟩,
    fun t err he => ?_⟩
  · have hsub := hq.sub (.sem i)
    rw [hb.empty (by rwa [hq.objects] at hv)] at hsub
    exact List.sublist_nil.1 hsub
  · rw [hb.owed_iff]
    have hcalls := hq.calls_eq (t := t) (f := .semTake i) rfl
    constructor
    · rintro ⟨hc, he⟩
      exact ⟨hcalls.2 hc, (hq.error hc rfl).2 he⟩
    · rintro ⟨hc, he⟩
      exact ⟨hcalls.1 hc, (hq.error (hcalls.1 hc) rfl).1 he⟩
  · obtain ⟨hne, ho⟩ := hidle t err he
    simp [hne, ho]

/-! ## Steps on the semaphore -/

theorem Balanced.block {h : ListHead} {f : Frame} {x : Waiter} {xs : List ThreadId} (hb : Balanced i v0 l s)
    (hc : s.Enters (.thread t) h) (hf : f.head = some h) (hu : s.Unavailable h x) (hx : x.calls = [f])
    (he : x.error ≠ .eok) :
    Balanced i v0 (l.next i (semGrantee i s (s.block t h x xs) none) none) (s.block t h x xs) ∧
      TakesRight i l (semGrantee i s (s.block t h x xs) none) none := by
  obtain ⟨o, ho⟩ := Option.isSome_iff_exists.1 (Frame.isSome_obj hf)
  rw [Frame.obj_of_head hf] at ho
  by_cases hh : o = .sem i
  · obtain rfl : h = .sem i := by cases h <;> simp_all [ListHead.obj]
    have hcalls : (s.waiter t).calls = [] := hc.resolve_right fun h => by cases h.1
    have hv : (s.objects.sem i).value = 0 := hu
    have hnext : l.next i (semGrantee i s (s.block t (.sem i) x xs) none) none = l := next_of_obj (by simp)
    rw [hnext]
    refine ⟨⟨hb.balance, hb.le_max, fun hpos => ?_, fun u => ?_⟩, fun _ _ h => by cases h⟩
    · exact absurd hv (Nat.ne_of_gt hpos)
    · rw [hb.owed_iff]
      change _ ↔ ((s.modWaiter t fun _ => x).waiter u).calls = _ ∧ ((s.modWaiter t fun _ => x).waiter u).error = _
      by_cases e : u = t
      · subst e
        rw [modWaiter_waiter_self, Granted, hcalls]
        simp [he]
      · rw [modWaiter_waiter_of_ne _ _ e, Granted]
  · exact hb.elsewhere (apart_block hc hf hx ho) hh (by simp)

/-- A step of the semaphore functions. -/
theorem Balanced.sem (hb : Balanced i v0 l s) (hw : s.Waiting) (hst : SemStep i s r s') :
    Balanced i v0 (l.next i (semGrantee i s s' r) r) s' ∧ TakesRight i l (semGrantee i s s' r) r := by
  have hbal := hb.balance
  have hmax := hb.le_max
  cases hst with
  | @take t hc hv =>
    have hval : ((s.setSem i { s.objects.sem i with value := (s.objects.sem i).value - 1 }).objects.sem i).value =
        (s.objects.sem i).value - 1 := by simp [setSem]
    have hg : semGrantee i s (s.setSem i { s.objects.sem i with value := (s.objects.sem i).value - 1 })
        (some (.semTake t i .eok)) = some t := by
      rw [semGrantee, grantee, hval, if_pos ⟨rfl, by omega⟩]
    rw [hg]
    refine ⟨⟨?_, ?_, fun hpos => ?_, fun u => ?_⟩, fun u err he => ?_⟩
    · rw [hval]; simp only [Ledger.next, Option.isSome_some, if_true]; simp; omega
    · rw [hval]; omega
    · exact hb.empty (by omega)
    · have ht : ¬s.Granted i t := fun hgr => by rw [Granted, hc] at hgr; cases hgr.1
      change _ ↔ s.Granted i u
      simp only [Ledger.next, and_true]
      by_cases e : t = u
      · subst e; simp [ht]
      · simp [e, hb.owed_iff]
    · cases he; simp
  | @finish t hc hl =>
    have hg : semGrantee i s (s.setCalls (.thread t) []) (some (.semTake t i (s.waiter t).error)) = none := by
      rw [semGrantee, grantee, setCalls_objects, if_neg fun h => lt_irrefl _ h.2]
    rw [hg]
    refine ⟨⟨by simpa [Ledger.next] using hbal, by simpa using hmax, fun hpos => ?_, fun u => ?_⟩, fun u err he => ?_⟩
    · rw [setCalls_objects] at hpos
      exact hb.empty hpos
    · simp only [Ledger.next, and_true]
      by_cases e : t = u
      · subst e; simp [Granted, setCalls]
      · rw [if_neg e, Granted, setCalls, modWaiter_waiter_of_ne _ _ (Ne.symm e)]
        simpa [Granted] using hb.owed_iff u
    · cases he
      rw [hb.owed_iff, Granted, hc]; simp
  | @wake t ts hl =>
    have hg : semGrantee i s (s.wake t .eok) (some (.semRelease i .eok)) = some t := by
      rw [semGrantee, grantee, if_pos rfl, hl, List.find?_cons_of_pos (by simp)]
    obtain ⟨-, f, hf, hh⟩ := hw.linked (t := t) (h := .sem i) (by simp [hl])
    obtain rfl : f = .semTake i := by cases f <;> simp_all [Frame.head]
    rw [hg]
    refine ⟨⟨?_, hmax, fun hpos => ?_, fun u => ?_⟩, fun u err he => by cases he⟩
    · simp only [Ledger.next, Option.isSome_some, if_true, wake_objects]; omega
    · have := hb.empty hpos
      rw [hl] at this; cases this
    · simp only [Ledger.next]
      by_cases e : u = t
      · subst e; simp [Granted, hf]
      · have e' : t ≠ u := Ne.symm e
        rw [Granted, wake_waiter_of_ne _ _ e]
        simpa [e', Granted] using hb.owed_iff u
  | release hl hv =>
    have hval : ((s.setSem i { s.objects.sem i with value := (s.objects.sem i).value + 1 }).objects.sem i).value =
        (s.objects.sem i).value + 1 := by simp [setSem]
    have hg : semGrantee i s (s.setSem i { s.objects.sem i with value := (s.objects.sem i).value + 1 })
        (some (.semRelease i .eok)) = none := by
      rw [semGrantee, grantee, if_pos rfl, hl]; rfl
    rw [hg]
    refine ⟨⟨?_, by rw [hval]; omega, fun _ => hl, fun u => ?_⟩, fun u err he => by cases he⟩
    · rw [hval]; simp only [Ledger.next, if_true]; simp; omega
    · change _ ↔ s.Granted i u
      simpa [Ledger.next] using hb.owed_iff u

/-- Every step keeps the balance. -/
theorem Balanced.step (hb : Balanced i v0 l s) (hw : s.Waiting) (hst : Step s (ev, r) s') :
    Balanced i v0 (l.next i (semGrantee i s s' r) r) s' ∧ TakesRight i l (semGrantee i s s' r) r := by
  cases hst with
  | quiet hq hr => exact hb.quiet hq hr
  | block ev hc hf hu hx hs he hp hxs => exact hb.block hc hf hu hx he
  | @fail t h f x r ev hc hf hh hl hu hx ha hr =>
    obtain ⟨o, ho⟩ := Option.isSome_iff_exists.1 (Frame.isSome_obj hf)
    rw [Frame.obj_of_head hf] at ho
    have hne : o ≠ .sem i := by rintro rfl; cases h <;> simp_all [ListHead.obj, ListHead.retries]
    exact hb.elsewhere (apart_fail hc hf hx ho) hne fun x hx => by rw [← Option.some.inj hx, hr.1, ho]
  | @sem j _ _ ev h =>
    by_cases hj : j = i
    · subst hj; exact hb.sem hw h
    · exact hb.elsewhere (h.apart hw) (by simpa using hj) h.obj
  | event ev h => exact hb.elsewhere (h.apart hw) (by simp) h.obj
  | mailbox ev h => exact hb.elsewhere (h.apart hw) (by simp) h.obj
  | mq ev h => exact hb.elsewhere (h.apart hw) (by simp) h.obj

end Waits

namespace Kernel

variable {k0 k : Kernel} {l : Ledger} {ls : List (Ev × Option Ret)} {i : SemId}

/-- The thread a step from `k` to `k'` grants a take of the semaphore to. -/
def semGrantee (i : SemId) (k k' : Kernel) (r : Option Ret) : Option ThreadId :=
  grantee i (k.sem i).value (k'.sem i).value (k.tlist (.sem i)) (k'.tlist (.sem i)) r

/-- A step, with the ledger of the semaphore. -/
def LedgerStep (i : SemId) (x : Kernel × Ledger) (l : Ev × Option Ret) (x' : Kernel × Ledger) : Prop :=
  x.1.Step l x'.1 ∧ x'.2 = x.2.next i (semGrantee i x.1 x'.1 l.2) l.2

theorem rtSemRelease_efull {s : SemId} (h : (k.rtSemRelease s).2.1 = .efull) : k.rtSemRelease s = (k, .efull, false) := by
  unfold rtSemRelease at h ⊢
  dsimp only at h ⊢
  split_ifs at h ⊢ with h1 h2
  rfl

/-- Conservation: in every state of every run, the value of a semaphore is its initial value and what was released,
without what was granted. -/
theorem sem_conservation (hb : Boot k0) (hv : (k0.sem i).value ≤ 65535)
    (hr : Runs.Run (LedgerStep i) (k0, Ledger.empty) ls (k, l)) :
    ((k.sem i).value : Int) = (k0.sem i).value + l.released - l.granted ∧
    (k.sem i).value ≤ 65535 ∧
    (0 < (k.sem i).value → k.tlist (.sem i) = []) ∧
    (∀ ev t err k', k.Step (ev, some (.semTake t i err)) k' →
      (err = .eok ↔ l.owed t = true ∨ semGrantee i k k' (some (.semTake t i err)) = some t)) ∧
    (∀ isr k', k.Step (.semRelease isr i, some (.semRelease i .efull)) k' → k' = k) := by
  have hinit : Waits.Balanced i (k0.sem i).value Ledger.empty k0.waits := by
    refine ⟨rfl, hv, fun _ => ?_, fun t => ?_⟩
    · rw [waits_list rfl]; exact hb.tlist _
    · rw [Waits.Granted, calls_of_cont_nil (hb.cont t)]
      simp [Ledger.empty]
  have hinv : k.IpcInv ∧ Waits.Balanced i (k0.sem i).value l k.waits := by
    refine hr.invariant (I := fun x => x.1.IpcInv ∧ Waits.Balanced i (k0.sem i).value x.2 x.1.waits) ⟨hb.ipcInv, hinit⟩ ?_
    rintro ⟨k, l⟩ ⟨ev, r⟩ ⟨k', l'⟩ ⟨I, hbal⟩ ⟨⟨fuel, hk⟩, hl⟩
    have hst := step_waits I hk
    have hnext := (hbal.step I.waiting hst).1
    change l' = l.next i (k.waits.semGrantee i k'.waits r) r at hl
    rw [← hl] at hnext
    exact ⟨⟨step_schedInv I.sched hk, hst.waiting I.waiting⟩, hnext⟩
  obtain ⟨I, hbal⟩ := hinv
  have hsum : (k.sem i).value + l.granted = (k0.sem i).value + l.released := hbal.balance
  refine ⟨by omega, hbal.le_max, fun hpos => ?_, fun ev t err k' ⟨fuel, hk⟩ => ?_, fun isr k' ⟨fuel, hk⟩ => ?_⟩
  · exact hbal.empty hpos
  · exact (hbal.step I.waiting (step_waits I hk)).2 t err rfl
  · simp only [step] at hk
    split at hk
    · obtain ⟨hk', he⟩ := Prod.mk.inj (Option.some.inj hk)
      have hfull : (k.rtSemRelease i).2.1 = .efull := by simpa using he
      rw [rtSemRelease_efull hfull] at hk'
      exact hk'.symm
    · cases hk

/-- A step with its ledger, computed. -/
def ledgerStep (i : SemId) (x : Kernel × Ledger) (ev : Ev) : Option ((Kernel × Ledger) × Option Ret) :=
  (step 2 x.1 ev).map fun y => ((y.1, x.2.next i (semGrantee i x.1 y.1 y.2) y.2), y.2)

/-- A thread waits for a semaphore, an interrupt handler releases it twice, and the thread returns. -/
def releaseEvents : List Ev :=
  [.startup true 0, .schedulerStart, .semTake 0 0xffffffff#32 .uninterruptible, .semRelease true 0,
    .semRelease true 0, .cont, .cont]

def idle : Kernel × Ledger := (boot 32 fun _ => 10, Ledger.empty)

/-- The state these events lead to, with the ledger. -/
def twiceReleased : Kernel × Ledger := ((Runs.exec (ledgerStep 0) idle releaseEvents).map (·.1)).getD idle

theorem twiceReleased_run : ∃ ls, Runs.Run (LedgerStep 0) idle ls twiceReleased := by
  have hsome : (Runs.exec (ledgerStep 0) idle releaseEvents).isSome := by decide
  obtain ⟨⟨x, ls⟩, he⟩ := Option.isSome_iff_exists.1 hsome
  have hx : twiceReleased = x := by simp [twiceReleased, he]
  rw [hx]
  refine ⟨ls, @Runs.Run.of_exec _ _ _ _ _ _ _ (fun _ => True) (fun y ev y' r hy _ => ?_) _ _ he fun _ _ => trivial⟩
  obtain ⟨z, hz, h⟩ := Option.map_eq_some_iff.1 hy
  cases h
  exact ⟨⟨2, hz⟩, rfl⟩

theorem sem_conservation_twiceReleased :
    ((twiceReleased.1.sem 0).value : Int) = 0 + twiceReleased.2.released - twiceReleased.2.granted ∧
      (twiceReleased.2.released = 2 ∧ twiceReleased.2.granted = 1) ∧
      (0 < (twiceReleased.1.sem 0).value → twiceReleased.1.tlist (.sem 0) = []) := by
  obtain ⟨ls, hr⟩ := twiceReleased_run
  have h := sem_conservation (k := twiceReleased.1) (l := twiceReleased.2) (i := 0)
    (boot_boot (by decide) fun _ => by decide) (by decide) hr
  exact ⟨h.1, by decide, h.2.2.1⟩

end Kernel

end RtThread
