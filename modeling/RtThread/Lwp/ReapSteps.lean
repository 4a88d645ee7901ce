import RtThread.Lwp.ReapInv

/-!
# The steps at the end of processes

Every step keeps the invariant, where `waitpid` does not find a finished child and the loop over the children does not
find one either: `fork_inv`, `spawn_inv`, `setRet_inv`, `exit_inv`, `interrupt_inv`, `waitpid_inv`, `resumed_inv` and
`free_inv`.
-/

namespace RtThread.LwpWorld

open Function (update update_apply update_of_ne update_self)
open Sibling (Forest)
open Singly (Chain)

variable {s s' : LwpWorld} {kids members : Nat → List Nat} {evs : List LwpEv} {ev : LwpEv} {l p t self pid lwp : Nat}
  {error error' : Int} {pc pc' : WaitPc} {value : Int}

theorem linked_iff_of_eq (ha : s'.allocated = s.allocated) (hpc : ∀ l, s'.freePc l = some .free ↔ s.freePc l = some .free)
    (l : Nat) : s'.Linked l ↔ s.Linked l := by
  rw [Linked, Linked, ha]
  exact and_congr_right fun _ => not_congr (hpc l)

theorem lastRet_append (hev : ∀ t lwp value, ev ≠ .setRet t lwp value) (l : Nat) :
    lastRet (evs ++ [ev]) l = lastRet evs l := by
  rw [lastRet, List.foldl_append]
  cases ev <;> first | rfl | exact absurd rfl (hev _ _ _)

/-! ## What does not change -/

theorem Life.congr (h : Life s) (hallocated : s'.allocated = s.allocated) (hnext : s'.nextLwp = s.nextLwp)
    (hpc : s'.freePc = s.freePc) (href : s'.ref = s.ref) (hfinish : s'.finish = s.finish) : Life s' := by
  refine ⟨?_, ?_, ?_⟩
  · rw [hallocated, hnext]
    exact h.lt
  · rw [hallocated, hpc, href, hfinish]
    exact h.pc
  · rw [hallocated, hpc, href, hfinish]
    exact h.idle

theorem Family.congr (h : Family s kids) (hlinked : ∀ l, s'.Linked l ↔ s.Linked l)
    (hfree : ∀ l, s'.freePc l = some .free → s.freePc l = some .free) (hparent : s'.parent = s.parent)
    (hfirst : s'.firstChild = s.firstChild) (hsibling : s'.sibling = s.sibling)
    (hnil : ∀ l, s.Linked l → s'.finish l = true → s'.freePc l ≠ some .release → s'.freePc l ≠ some .children →
      s.finish l = true ∧ s.freePc l ≠ some .release ∧ s.freePc l ≠ some .children) : Family s' kids := by
  constructor
  · rw [hparent, hfirst, hsibling]
    exact h.forest.congr hlinked
  · intro l hl hfin hrel hch
    rw [hlinked] at hl
    obtain ⟨h1, h2, h3⟩ := hnil l hl hfin hrel hch
    exact h.nil l hl h1 h2 h3
  · intro l hl
    rw [hfirst]
    exact h.free l (hfree l hl)

theorem Pids.congr (h : Pids s) (hlinked : ∀ l, s'.Linked l ↔ s.Linked l) (howner : s'.pidOwner = s.pidOwner)
    (hpid : s'.pid = s.pid) : Pids s' := by
  constructor
  intro pid l
  rw [howner, hpid, hlinked]
  exact h.owner pid l

theorem Members.congr (h : Members s members) (hallocated : s'.allocated = s.allocated) (href : s'.ref = s.ref)
    (hnext : s'.nextThread = s.nextThread) (hthread : s'.thread = s.thread) : Members s' members := by
  refine ⟨?_, h.nodup, ?_, ?_⟩
  · rw [hallocated, href]
    exact h.ref
  · rw [hallocated, hthread]
    exact h.mem_iff
  · rw [hallocated, hthread, hnext]
    exact h.thread

theorem Logs.congr (h : Logs evs s) (hev : ∀ t lwp value, ev ≠ .setRet t lwp value) (hallocated : s'.allocated = s.allocated)
    (hlinked : ∀ l, s'.Linked l ↔ s.Linked l) (hnext : s'.nextLwp = s.nextLwp) (hpid : s'.pid = s.pid) (hret : s'.lwpRet = s.lwpRet)
    (hfrees : s'.frees = s.frees) (hputs : s'.puts = s.puts) (hreturned : s'.returned = s.returned) :
    Logs (evs ++ [ev]) s' := by
  refine ⟨?_, ?_, fun l => ?_, ?_, ?_, ?_, fun l => ?_⟩
  · rw [hfrees, hnext, hallocated]
    exact h.free_iff
  · rw [hfrees]
    exact h.free_nodup
  · rw [hputs, hnext, hlinked]
    exact h.put_iff l
  · rw [hputs]
    exact h.put_nodup
  · rw [hreturned, hfrees, hpid, hret]
    exact h.returned
  · rw [hreturned]
    exact h.returned_nodup
  · rw [lastRet_append hev, hnext, hret]
    exact h.ret l

/-- A list of what has been given back, with one more. -/
theorem cons_iff {xs : List Nat} {n : Nat} {P P' : Nat → Prop} (h : ∀ x, x ∈ xs ↔ x < n ∧ ¬ P x) (hl : P l) (hlt : l < n)
    (hP : ∀ x, P' x ↔ P x ∧ x ≠ l) (x : Nat) : x ∈ l :: xs ↔ x < n ∧ ¬ P' x := by
  rw [List.mem_cons, h, hP]
  by_cases hxl : x = l
  · subst hxl
    simp [hlt]
  · simp [hxl]

theorem allocated_update (l : Nat) : update s.allocated lwp false l = true ↔ s.allocated l = true ∧ l ≠ lwp := by
  rw [update_apply]
  split
  next hl => simp [hl]
  next hl => simp [hl]

section

variable (h : Members s members)

include h

/-- The threads of a structure that is not there do not matter. -/
theorem Members.forget (hl : s.allocated l = false) : Members s (update members l []) := by
  have hne : ∀ m, s.allocated m = true → m ≠ l := by
    rintro m hm rfl
    rw [hl] at hm
    cases hm
  refine ⟨fun m hm => ?_, fun m => ?_, fun m hm t => ?_, h.thread⟩
  · rw [update_of_ne (hne m hm)]
    exact h.ref m hm
  · rw [update_apply]
    split
    · exact List.nodup_nil
    · exact h.nodup m
  · rw [update_of_ne (hne m hm)]
    exact h.mem_iff m hm t

/-- A structure without threads is freed. -/
theorem Members.free (hnone : ∀ t error pc, s.thread t ≠ some ⟨l, error, pc⟩)
    (hallocated : s'.allocated = update s.allocated l false) (href : s'.ref = s.ref)
    (hnext : s'.nextThread = s.nextThread) (hthread : s'.thread = s.thread) : Members s' members := by
  refine ⟨fun m hm => ?_, h.nodup, fun m hm t => ?_, fun t self error pc ht => ?_⟩
  · rw [hallocated, allocated_update] at hm
    rw [href]
    exact h.ref m hm.1
  · rw [hallocated, allocated_update] at hm
    rw [hthread]
    exact h.mem_iff m hm.1 t
  · rw [hthread] at ht
    rw [hallocated, allocated_update, hnext]
    obtain ⟨ha, hlt⟩ := h.thread t self error pc ht
    refine ⟨⟨ha, ?_⟩, hlt⟩
    rintro rfl
    exact hnone t error pc ht

/-! ## Threads -/

/-- A thread of a process goes on. -/
theorem Members.goto (ht : s.thread t = some ⟨self, error, pc⟩)
    (hallocated : s'.allocated = s.allocated) (href : s'.ref = s.ref) (hnext : s'.nextThread = s.nextThread)
    (hthread : s'.thread = update s.thread t (some ⟨self, error', pc'⟩)) : Members s' members := by
  refine ⟨fun l hl => ?_, h.nodup, fun l hl t' => ?_, fun t' self' error'' pc'' ht' => ?_⟩
  · rw [hallocated] at hl
    rw [href]
    exact h.ref l hl
  · rw [hallocated] at hl
    rw [h.mem_iff l hl, hthread]
    by_cases htt : t' = t
    · subst htt
      rw [update_self, ht]
      constructor
      · rintro ⟨e, q, heq⟩
        obtain ⟨rfl, -, -⟩ := LwpThread.mk.inj (Option.some.inj heq)
        exact ⟨error', pc', rfl⟩
      · rintro ⟨e, q, heq⟩
        obtain ⟨rfl, -, -⟩ := LwpThread.mk.inj (Option.some.inj heq)
        exact ⟨error, pc, rfl⟩
    · rw [update_of_ne htt]
  · rw [hthread] at ht'
    rw [hallocated, hnext]
    by_cases htt : t' = t
    · subst htt
      rw [update_self] at ht'
      obtain ⟨rfl, -, -⟩ := LwpThread.mk.inj (Option.some.inj ht')
      exact h.thread t' self error pc ht
    · rw [update_of_ne htt] at ht'
      exact h.thread t' self' error'' pc'' ht'

/-- A new thread of a process. -/
theorem Members.add (hself : s'.allocated self = true)
    (hallocated : ∀ l, l ≠ self → s'.allocated l = s.allocated l) (href : s'.ref self = (members self).length + 1)
    (hold : s.allocated self = true ∨ members self = [] ∧ ∀ t error pc, s.thread t ≠ some ⟨self, error, pc⟩)
    (href' : ∀ l, l ≠ self → s'.ref l = s.ref l) (hnext : s'.nextThread = s.nextThread + 1)
    (hthread : s'.thread = update s.thread s.nextThread (some ⟨self, error, pc⟩)) :
    Members s' (update members self (s.nextThread :: members self)) := by
  have hfresh : ∀ l, s.nextThread ∉ members l ∨ s.allocated l = false := by
    intro l
    cases hl : s.allocated l with
    | false => exact .inr rfl
    | true =>
      left
      intro hmem
      obtain ⟨e, q, ht⟩ := (h.mem_iff l hl _).1 hmem
      exact absurd (h.thread _ _ _ _ ht).2 (Nat.lt_irrefl _)
  have hnew : s.nextThread ∉ members self := by
    rcases hold with ha | ⟨hnil, -⟩
    · exact (hfresh self).resolve_right (by rw [ha]; exact Bool.noConfusion)
    · rw [hnil]
      exact List.not_mem_nil
  have hmem : ∀ t, t ∈ members self ↔ ∃ error pc, s.thread t = some ⟨self, error, pc⟩ := by
    intro t
    rcases hold with ha | ⟨hnil, hnone⟩
    · exact h.mem_iff self ha t
    · rw [hnil]
      exact ⟨fun ht => absurd ht List.not_mem_nil, fun ⟨e, q, ht⟩ => absurd ht (hnone t e q)⟩
  refine ⟨fun l hl => ?_, fun l => ?_, fun l hl t => ?_, fun t self' error' pc' ht => ?_⟩
  · by_cases hls : l = self
    · subst hls
      rw [update_self, href]
      rfl
    · rw [update_of_ne hls, href' l hls]
      exact h.ref l (by rw [← hallocated l hls]; exact hl)
  · by_cases hls : l = self
    · subst hls
      rw [update_self]
      exact List.nodup_cons.2 ⟨hnew, h.nodup l⟩
    · rw [update_of_ne hls]
      exact h.nodup l
  · rw [hthread]
    by_cases hls : l = self
    · subst hls
      rw [update_self, List.mem_cons, hmem]
      by_cases htn : t = s.nextThread
      · subst htn
        rw [update_self]
        exact ⟨fun _ => ⟨_, _, rfl⟩, fun _ => .inl rfl⟩
      · rw [update_of_ne htn]
        exact ⟨fun ht => ht.resolve_left htn, .inr⟩
    · rw [update_of_ne hls]
      have hla : s.allocated l = true := by rw [← hallocated l hls]; exact hl
      by_cases htn : t = s.nextThread
      · subst htn
        rw [update_self]
        constructor
        · intro hmem
          exact absurd hmem ((hfresh l).resolve_right (by rw [hla]; exact Bool.noConfusion))
        · rintro ⟨e, q, heq⟩
          exact absurd (LwpThread.mk.inj (Option.some.inj heq)).1.symm hls
      · rw [update_of_ne htn]
        exact h.mem_iff l hla t
  · rw [hthread] at ht
    rw [hnext]
    by_cases htn : t = s.nextThread
    · subst htn
      rw [update_self] at ht
      obtain ⟨rfl, -, -⟩ := LwpThread.mk.inj (Option.some.inj ht)
      exact ⟨hself, Nat.lt_succ_self _⟩
    · rw [update_of_ne htn] at ht
      obtain ⟨ha, hlt⟩ := h.thread t self' error' pc' ht
      refine ⟨?_, Nat.lt_succ_of_lt hlt⟩
      by_cases hls : self' = self
      · rw [hls]
        exact hself
      · rw [hallocated self' hls]
        exact ha

/-- A thread ends. -/
theorem Members.remove (ht : s.thread t = some ⟨self, error, pc⟩)
    (hallocated : s'.allocated = s.allocated) (href : s'.ref = update s.ref self (s.ref self - 1))
    (hnext : s'.nextThread = s.nextThread) (hthread : s'.thread = update s.thread t none) :
    Members s' (update members self ((members self).erase t)) := by
  have ha := (h.thread t self error pc ht).1
  have hmem := (h.mem_iff self ha t).2 ⟨error, pc, ht⟩
  refine ⟨fun l hl => ?_, fun l => ?_, fun l hl t' => ?_, fun t' self' error' pc' ht' => ?_⟩
  · rw [hallocated] at hl
    rw [href]
    by_cases hls : l = self
    · subst hls
      rw [update_self, update_self, List.length_erase_of_mem hmem, h.ref l hl]
    · rw [update_of_ne hls, update_of_ne hls]
      exact h.ref l hl
  · by_cases hls : l = self
    · subst hls
      rw [update_self]
      exact (h.nodup l).erase t
    · rw [update_of_ne hls]
      exact h.nodup l
  · rw [hallocated] at hl
    rw [hthread]
    by_cases hls : l = self
    · subst hls
      rw [update_self, (h.nodup l).mem_erase_iff, h.mem_iff l hl]
      by_cases htt : t' = t
      · subst htt
        rw [update_self]
        exact ⟨fun hd => absurd rfl hd.1, fun ⟨_, _, heq⟩ => (nomatch heq)⟩
      · rw [update_of_ne htt]
        exact ⟨fun hd => hd.2, fun hd => ⟨htt, hd⟩⟩
    · rw [update_of_ne hls, h.mem_iff l hl]
      by_cases htt : t' = t
      · subst htt
        rw [update_self, ht]
        constructor
        · rintro ⟨e, q, heq⟩
          exact absurd (LwpThread.mk.inj (Option.some.inj heq)).1.symm hls
        · exact fun ⟨_, _, heq⟩ => (nomatch heq)
      · rw [update_of_ne htt]
  · rw [hthread] at ht'
    rw [hallocated, hnext]
    by_cases htt : t' = t
    · subst htt
      rw [update_self] at ht'
      cases ht'
    · rw [update_of_ne htt] at ht'
      exact h.thread t' self' error' pc' ht'

end

/-- A thread counts for who waits while it is in `waitpid`, up to a result other than the end of the child. -/
def LwpThread.Waiting (x : LwpThread) : Prop := ∃ pid l, x.pc = .wait pid l ∨ x.error = RT_EOK ∧ x.pc = .resumed pid l

theorem Waits.congr_thread (h : Waits s) (hlinked : ∀ l, s'.Linked l ↔ s.Linked l)
    (hhanded : ∀ l, s'.Handed l ↔ s.Handed l)
    (hparent : ∀ t self error pc, s.thread t = some ⟨self, error, pc⟩ → ∀ l, s.parent l = some self → s'.parent l = some self)
    (hpid : s'.pid = s.pid) (hlist : s'.waitList = s.waitList)
    (hthread : ∀ t x, LwpThread.Waiting x → (s'.thread t = some x ↔ s.thread t = some x)) : Waits s' := by
  have hwait : ∀ t self error pid l, s'.thread t = some ⟨self, error, .wait pid l⟩ ↔
      s.thread t = some ⟨self, error, .wait pid l⟩ := fun t self error pid l => hthread t _ ⟨pid, l, .inl rfl⟩
  have hresumed : ∀ t self pid l, s'.thread t = some ⟨self, RT_EOK, .resumed pid l⟩ ↔
      s.thread t = some ⟨self, RT_EOK, .resumed pid l⟩ := fun t self pid l => hthread t _ ⟨pid, l, .inr ⟨rfl, rfl⟩⟩
  refine ⟨fun t self error pid l ht => ?_, fun l hl => ?_, fun t self pid l ht => ?_, ?_, fun l hl => ?_⟩
  · rw [hwait] at ht
    rw [hlinked, hpid, hlist]
    obtain ⟨h1, h2, h3⟩ := h.wait t self error pid l ht
    exact ⟨h1, hparent t self error _ ht l h2, h3⟩
  · rw [hlinked] at hl
    rw [hlist]
    rcases h.list l hl with hnil | ⟨t, self, error, pid, heq, ht⟩
    · exact .inl hnil
    · exact .inr ⟨t, self, error, pid, heq, (hwait t self error pid l).2 ht⟩
  · rw [hresumed] at ht
    rw [hhanded, hpid]
    obtain ⟨h1, h2, h3⟩ := h.resumed t self pid l ht
    exact ⟨h1, hparent t self _ _ ht l h2, h3⟩
  · intro t t' self self' pid pid' l ht ht'
    rw [hresumed] at ht
    rw [hresumed] at ht'
    exact h.unique t t' self self' pid pid' l ht ht'
  · rw [hhanded] at hl
    obtain ⟨hnil, t, self, pid, ht⟩ := h.handed l hl
    rw [hlist]
    exact ⟨hnil, t, self, pid, (hresumed t self pid l).2 ht⟩

namespace Inv

/-! ## Steps of user code -/

theorem setRet_inv (h : Inv evs s kids members) (ht : s.thread t = some ⟨self, error, .user⟩) :
    Inv (evs ++ [.setRet t self value]) { s with lwpRet := update s.lwpRet self value } kids members := by
  obtain ⟨ha, -⟩ := h.idle_of_thread ht
  refine ⟨h.life.congr rfl rfl rfl rfl rfl, h.family.congr (fun _ => .rfl) (fun _ => id) rfl rfl rfl fun _ _ h1 h2 h3 => ⟨h1, h2, h3⟩,
    h.pids.congr (fun _ => .rfl) rfl rfl, h.members.congr rfl rfl rfl rfl,
    h.waits.congr_thread (fun _ => .rfl) (fun _ => .rfl) (fun _ _ _ _ _ _ => id) rfl rfl fun _ _ _ => .rfl,
    ⟨h.logs.free_iff, h.logs.free_nodup, h.logs.put_iff, h.logs.put_nodup, fun pid l v hlv => ?_, h.logs.returned_nodup,
      fun l => ?_⟩⟩
  · obtain ⟨hfree, hpid, hv⟩ := h.logs.returned pid l v hlv
    have hne : l ≠ self := by
      rintro rfl
      exact ((h.logs.free_iff l).1 hfree).2 ha
    refine ⟨hfree, hpid, ?_⟩
    dsimp only
    rw [update_of_ne hne]
    exact hv
  · rw [lastRet, List.foldl_append]
    show (if self = l then value else lastRet evs l) = if l < s.nextLwp then update s.lwpRet self value l else 0
    by_cases hls : l = self
    · subst hls
      rw [if_pos rfl, if_pos (h.life.lt l ha), update_self]
    · rw [if_neg (Ne.symm hls), update_of_ne hls]
      exact h.logs.ret l

variable {t' : Nat} {x y : LwpThread}

/-- A change of a thread that does not wait before and after does not count. -/
theorem waiting_update_iff {y : Option LwpThread} (hold : ∀ x, s.thread t = some x → ¬ LwpThread.Waiting x)
    (hnew : ∀ x, y = some x → ¬ LwpThread.Waiting x) (hx : LwpThread.Waiting x) :
    update s.thread t y t' = some x ↔ s.thread t' = some x := by
  by_cases htt : t' = t
  · subst htt
    rw [update_self]
    exact ⟨fun heq => absurd hx (hnew x heq), fun heq => absurd hx (hold x heq)⟩
  · rw [update_of_ne htt]

theorem not_waiting_user : ¬ LwpThread.Waiting ⟨self, error, .user⟩ := by
  rintro ⟨pid, l, heq | ⟨-, heq⟩⟩
  · cases heq
  · cases heq

theorem not_waiting_of_eq (ht : s.thread t = some y) (hy : ¬ LwpThread.Waiting y) :
    ∀ x, s.thread t = some x → ¬ LwpThread.Waiting x := by
  intro x hx
  rw [ht] at hx
  cases hx
  exact hy

theorem spawn_inv (h : Inv evs s kids members) (ht : s.thread t = some ⟨self, error, .user⟩) :
    Inv (evs ++ [.spawn t]) { s with
        ref := update s.ref self (s.ref self + 1)
        thread := update s.thread s.nextThread (some ⟨self, RT_EOK, .user⟩)
        nextThread := s.nextThread + 1 } kids (update members self (s.nextThread :: members self)) := by
  obtain ⟨ha, hpc, hfin, hpos⟩ := h.idle_of_thread ht
  have hne : ∀ l, s.ref l = 0 → l ≠ self := by
    rintro l hl rfl
    omega
  refine ⟨⟨h.life.lt, fun l pc hl => ?_, fun l hl hnone => ?_⟩,
    h.family.congr (fun _ => .rfl) (fun _ => id) rfl rfl rfl fun _ _ h1 h2 h3 => ⟨h1, h2, h3⟩, h.pids.congr (fun _ => .rfl) rfl rfl,
    h.members.add ha (fun _ _ => rfl) ?_ (.inl ha) (fun l hl => update_of_ne hl _ _) rfl rfl,
    h.waits.congr_thread (fun _ => .rfl) (fun _ => .rfl) (fun _ _ _ _ _ _ => id) rfl rfl fun t' x hx =>
      waiting_update_iff ?_ ?_ hx,
    h.logs.congr (by simp) rfl (fun _ => .rfl) rfl rfl rfl rfl rfl rfl⟩
  · obtain ⟨h1, h2, h3⟩ := h.life.pc l pc hl
    refine ⟨h1, ?_, h3⟩
    dsimp only
    rw [update_of_ne (hne l h2)]
    exact h2
  · dsimp only
    by_cases hls : l = self
    · subst hls
      rw [update_self]
      exact .inl ⟨hfin, Nat.succ_pos _⟩
    · rw [update_of_ne hls]
      exact h.life.idle l hl hnone
  · dsimp only
    rw [update_self, h.members.ref self ha]
  · exact fun x ht' => absurd (h.members.thread _ _ _ _ ht').2 (Nat.lt_irrefl _)
  · intro x heq
    cases heq
    exact not_waiting_user

theorem exit_inv (h : Inv evs s kids members) (ht : s.thread t = some ⟨self, error, .user⟩) :
    ∃ s', { s with thread := update s.thread t none }.lwpRefDec self = some s' ∧
      Inv (evs ++ [.exit t]) s' kids (update members self ((members self).erase t)) := by
  obtain ⟨ha, hpc, hfin, hpos⟩ := h.idle_of_thread ht
  rw [lwpRefDec, if_pos ha]
  refine ⟨_, rfl, ?_⟩
  have hne : ∀ l, s.ref l = 0 → l ≠ self := by
    rintro l hl rfl
    omega
  -- the last thread starts `lwp_free`
  have hfree : ∀ l, (if s.ref self - 1 = 0 then update s.freePc self (some .finish) else s.freePc) l =
      if l = self ∧ s.ref self - 1 = 0 then some .finish else s.freePc l := by
    intro l
    by_cases hzero : s.ref self - 1 = 0
    · rw [if_pos hzero, update_apply]
      by_cases hls : l = self
      · rw [if_pos hls, if_pos ⟨hls, hzero⟩]
      · rw [if_neg hls, if_neg fun e => hls e.1]
    · rw [if_neg hzero, if_neg fun e => hzero e.2]
  generalize (if s.ref self - 1 = 0 then update s.freePc self (some .finish) else s.freePc) = freePc at hfree
  have hlinked : ∀ l, Linked { s with
      ref := update s.ref self (s.ref self - 1), thread := update s.thread t none, freePc := freePc } l ↔ s.Linked l := by
    refine linked_iff_of_eq rfl fun l => ?_
    dsimp only
    rw [hfree l]
    split
    next hls =>
      rw [hls.1, hpc]
      exact ⟨fun e => (nomatch e), fun e => (nomatch e)⟩
    next => exact .rfl
  refine ⟨⟨h.life.lt, fun l pc hl => ?_, fun l hl hnone => ?_⟩, h.family.congr hlinked ?_ rfl rfl rfl ?_,
    h.pids.congr hlinked rfl rfl, h.members.remove ht rfl rfl rfl rfl,
    h.waits.congr_thread hlinked ?_ (fun _ _ _ _ _ _ => id) rfl rfl fun t' x hx =>
      waiting_update_iff (not_waiting_of_eq ht not_waiting_user) (by simp) hx,
    h.logs.congr (by simp) rfl hlinked rfl rfl rfl rfl rfl rfl⟩
  · dsimp only at hl ⊢
    rw [hfree l] at hl
    split at hl
    next hls =>
      obtain ⟨rfl, hzero⟩ := hls
      cases hl
      rw [update_self, hfin]
      exact ⟨ha, hzero, by simp⟩
    next =>
      obtain ⟨h1, h2, h3⟩ := h.life.pc l pc hl
      rw [update_of_ne (hne l h2)]
      exact ⟨h1, h2, h3⟩
  · dsimp only at hnone ⊢
    rw [hfree l] at hnone
    split at hnone
    next => cases hnone
    next hls =>
      by_cases hl' : l = self
      · subst hl'
        rw [update_self]
        exact .inl ⟨hfin, Nat.pos_of_ne_zero fun e => hls ⟨rfl, e⟩⟩
      · rw [update_of_ne hl']
        exact h.life.idle l hl hnone
  · intro l hl
    have hl : freePc l = some .free := hl
    rw [hfree l] at hl
    split at hl
    · cases hl
    · exact hl
  · intro l _ h1 h2 h3
    dsimp only at h2 h3
    rw [hfree l] at h2 h3
    split at h2
    next hls =>
      have hfl : s.finish l = true := h1
      rw [hls.1, hfin] at hfl
      cases hfl
    next hls =>
      rw [if_neg hls] at h3
      exact ⟨h1, h2, h3⟩
  · intro l
    show s.allocated l = true ∧ freePc l = none ∧ s.finish l = true ↔ s.Handed l
    rw [hfree l, Handed]
    split
    next hls => simp [hls.1, hfin]
    next => exact .rfl

/-! ## Steps of `waitpid` -/

/-- The fields of a thread after another, or itself, went on. -/
theorem of_update_eq (ht : update s.thread t (some x) t' = some y) : t' = t ∧ x = y ∨ t' ≠ t ∧ s.thread t' = some y := by
  by_cases htt : t' = t
  · subst htt
    rw [update_self] at ht
    exact .inl ⟨rfl, Option.some.inj ht⟩
  · rw [update_of_ne htt] at ht
    exact .inr ⟨htt, ht⟩

/-- A thread with a result was there before another went on without one. -/
theorem resumed_of_update (hx : ∀ self pid l, x ≠ ⟨self, RT_EOK, .resumed pid l⟩) {self' pid' l : Nat}
    (ht : update s.thread t (some x) t' = some ⟨self', RT_EOK, .resumed pid' l⟩) :
    s.thread t' = some ⟨self', RT_EOK, .resumed pid' l⟩ := by
  rcases of_update_eq ht with ⟨-, heq⟩ | ⟨-, ht⟩
  · exact absurd heq (hx _ _ _)
  · exact ht

/-- A thread starts or stops waiting at a process that has not handed itself over and at which no other one waits; it gets no
result. -/
theorem waits_update {ws : List Nat} (h : Waits s) (hnew : ∀ self pid l, x ≠ ⟨self, RT_EOK, .resumed pid l⟩)
    (hold : ∀ self pid l, s.thread t ≠ some ⟨self, RT_EOK, .resumed pid l⟩)
    (hleft : ∀ self error pid l, s.thread t = some ⟨self, error, .wait pid l⟩ → l = lwp)
    (hat : ∀ t', s.waitList lwp = [t'] → t' = t) (hhanded : ¬ s.Handed lwp)
    (hwait : ∀ self error pid l, x = ⟨self, error, .wait pid l⟩ →
      l = lwp ∧ ws = [t] ∧ s.Linked lwp ∧ s.parent lwp = some self ∧ s.pid lwp = pid)
    (hlist : ws = [] ∨ ∃ self error pid, ws = [t] ∧ x = ⟨self, error, .wait pid lwp⟩) :
    Waits { s with waitList := Function.update s.waitList lwp ws, thread := Function.update s.thread t (some x) } where
  wait t' self error pid l ht' := by
    rcases of_update_eq ht' with ⟨rfl, heq⟩ | ⟨htt, ht'⟩
    · obtain ⟨rfl, hws, h1, h2, h3⟩ := hwait _ _ _ _ heq
      exact ⟨h1, h2, h3, (update_self _ _ _).trans hws⟩
    · obtain ⟨h1, h2, h3, h4⟩ := h.wait t' self error pid l ht'
      have hne : l ≠ lwp := by
        rintro rfl
        exact htt (hat t' h4)
      exact ⟨h1, h2, h3, (update_of_ne hne _ _).trans h4⟩
  list l hl := by
    by_cases hne : l = lwp
    · subst hne
      refine hlist.imp (fun hws => (update_self _ _ _).trans hws) ?_
      rintro ⟨self, error, pid, hws, rfl⟩
      exact ⟨t, self, error, pid, (update_self _ _ _).trans hws, update_self _ _ _⟩
    · refine (h.list l hl).imp (fun heq => (update_of_ne hne _ _).trans heq) ?_
      rintro ⟨t', self, error, pid, heq, ht'⟩
      have htt : t' ≠ t := by
        rintro rfl
        exact hne (hleft _ _ _ _ ht')
      exact ⟨t', self, error, pid, (update_of_ne hne _ _).trans heq, (update_of_ne htt _ _).trans ht'⟩
  resumed t' self pid l ht' := h.resumed t' self pid l (resumed_of_update hnew ht')
  unique t' t'' self self' pid pid' l ht' ht'' :=
    h.unique t' t'' self self' pid pid' l (resumed_of_update hnew ht') (resumed_of_update hnew ht'')
  handed l hl := by
    obtain ⟨hnil, t', self, pid, ht'⟩ := h.handed l hl
    have hne : l ≠ lwp := by
      rintro rfl
      exact hhanded hl
    have htt : t' ≠ t := by
      rintro rfl
      exact hold _ _ _ ht'
    exact ⟨(update_of_ne hne _ _).trans hnil, t', self, pid, (update_of_ne htt _ _).trans ht'⟩

section

variable (h : Inv evs s kids members)

include h

theorem interrupt_inv (ht : s.thread t = some ⟨self, error, .wait pid lwp⟩) :
    Inv (evs ++ [.interrupt t]) ({ s with waitList := update s.waitList lwp ((s.waitList lwp).erase t) }.goto t
      ⟨self, RT_EINTR, .wait pid lwp⟩ (.resumed pid lwp)) kids members := by
  obtain ⟨hlinked, hparent, hpid, hlist⟩ := h.waits.wait t self error pid lwp ht
  have hnil : (s.waitList lwp).erase t = [] := by rw [hlist, List.erase_cons_head]
  have hnew : ∀ self' pid' l, (⟨self, RT_EINTR, .resumed pid lwp⟩ : LwpThread) ≠ ⟨self', RT_EOK, .resumed pid' l⟩ := by
    intro self' pid' l heq
    cases heq
  rw [hnil]
  refine ⟨h.life.congr rfl rfl rfl rfl rfl, h.family.congr (fun _ => .rfl) (fun _ => id) rfl rfl rfl fun _ _ h1 h2 h3 => ⟨h1, h2, h3⟩,
    h.pids.congr (fun _ => .rfl) rfl rfl, h.members.goto ht rfl rfl rfl rfl,
    waits_update h.waits hnew (by simp [ht]) ?_ (fun t' heq => (List.cons.inj (hlist.symm.trans heq)).1.symm) ?_ (by simp) (.inl rfl),
    h.logs.congr (by simp) rfl (fun _ => .rfl) rfl rfl rfl rfl rfl rfl⟩
  · intro self' error' pid' l ht'
    cases ht.symm.trans ht'
    rfl
  · intro hl
    exact absurd (hlist.symm.trans (h.waits.handed lwp hl).1) nofun

/-- Nothing changes. -/
theorem idle_inv (hev : ∀ t lwp value, ev ≠ .setRet t lwp value) :
    Inv (evs ++ [ev]) s kids members :=
  ⟨h.life, h.family, h.pids, h.members, h.waits, h.logs.congr hev rfl (fun _ => .rfl) rfl rfl rfl rfl rfl rfl⟩

/-- `waitpid` of no finished child. -/
theorem waitpid_inv (ht : s.thread t = some ⟨self, error, .user⟩)
    (hclean : ∀ lwp, s.pidOwner pid = some lwp → s.parent lwp = some self → s.finish lwp = false) :
    ∃ s', s.waitpid t ⟨self, error, .user⟩ pid = some s' ∧ Inv (evs ++ [.waitpid t pid]) s' kids members := by
  rw [waitpid]
  cases hown : s.pidOwner pid with
  | none => exact ⟨s, rfl, h.idle_inv (by simp)⟩
  | some lwp =>
    obtain ⟨hlinked, hpid⟩ := (h.pids.owner pid lwp).1 hown
    dsimp only
    rw [if_pos hlinked.1]
    by_cases hparent : s.parent lwp = some self
    · rw [if_neg (not_not.2 hparent), hclean lwp hown hparent, if_neg Bool.false_ne_true]
      by_cases hnil : s.waitList lwp = []
      · have hnew : ∀ self' pid' l, (⟨self, error, .wait pid lwp⟩ : LwpThread) ≠ ⟨self', RT_EOK, .resumed pid' l⟩ := by
          intro self' pid' l heq
          cases heq
        rw [if_neg (not_not.2 hnil)]
        refine ⟨_, rfl, h.life.congr rfl rfl rfl rfl rfl,
          h.family.congr (fun _ => .rfl) (fun _ => id) rfl rfl rfl fun _ _ h1 h2 h3 => ⟨h1, h2, h3⟩,
          h.pids.congr (fun _ => .rfl) rfl rfl, h.members.goto ht rfl rfl rfl rfl,
          waits_update h.waits hnew (by simp [ht]) (by simp [ht]) (fun t' heq => nomatch hnil.symm.trans heq) ?_ ?_
            (.inr ⟨self, error, pid, rfl, rfl⟩),
          h.logs.congr (by simp) rfl (fun _ => .rfl) rfl rfl rfl rfl rfl rfl⟩
        · intro hl
          exact absurd ((hclean lwp hown hparent).symm.trans hl.2.2) Bool.false_ne_true
        · rintro self' error' pid' l ⟨⟩
          exact ⟨rfl, rfl, hlinked, hparent, hpid⟩
      · rw [if_pos hnil]
        exact ⟨s, rfl, h.idle_inv (by simp)⟩
    · rw [if_pos hparent]
      exact ⟨s, rfl, h.idle_inv (by simp)⟩

/-- A waiting thread that was woken up goes on: with its child, if that handed itself over. -/
theorem resumed_inv (ht : s.thread t = some ⟨self, error, .resumed pid lwp⟩) :
    ∃ s' kids', s.waitpidResumed t ⟨self, error, .resumed pid lwp⟩ pid lwp = some s' ∧
      Inv (evs ++ [.resumed t]) s' kids' members := by
  rw [waitpidResumed]
  by_cases herror : error = RT_EOK
  · subst herror
    obtain ⟨⟨ha, hpc, hfin⟩, hparent, hpid⟩ := h.waits.resumed t self pid lwp ht
    obtain ⟨hnil, -⟩ := h.waits.handed lwp ⟨ha, hpc, hfin⟩
    have hlinked : s.Linked lwp := ⟨ha, by rw [hpc]; exact nofun⟩
    have hkids : kids lwp = [] := h.family.nil lwp hlinked hfin (by simp [hpc]) (by simp [hpc])
    obtain ⟨firstChild, sibling, kids', hunlink, hforest, hkids', hfirst⟩ := unlink_spec h hlinked hparent hkids
    have hlinked' : ∀ l, update s.allocated lwp false l = true ∧ s.freePc l ≠ some .free ↔ s.Linked l ∧ l ≠ lwp := by
      intro l
      rw [allocated_update, Linked, and_right_comm]
    have hfrees : lwp ∉ s.frees := fun hfree => ((h.logs.free_iff lwp).1 hfree).2 ha
    have hnone : ∀ t error pc, s.thread t ≠ some ⟨lwp, error, pc⟩ := by
      intro t error pc ht
      exact absurd ((h.idle_of_thread ht).2.2.1.symm.trans hfin) Bool.false_ne_true
    have hmem : Members (s.goto t ⟨self, RT_EOK, .resumed pid lwp⟩ .user) members := h.members.goto ht rfl rfl rfl rfl
    rw [if_pos rfl, reap, if_pos ha, hunlink]
    dsimp only
    rw [rtFree, lwpPidPut]
    rw [if_pos ha]
    refine ⟨_, kids', rfl, ⟨fun l hl => ?_, fun l pc hl => ?_, fun l hl hnone => ?_⟩, ⟨hforest.congr hlinked', ?_, ?_⟩, ⟨?_⟩,
      hmem.free ?_ rfl rfl rfl rfl, ⟨?_, ?_, ?_, ?_, ?_⟩, ⟨?_, ?_, ?_, ?_, ?_, ?_, ?_⟩⟩
    · exact h.life.lt l ((allocated_update l).1 hl).1
    · obtain ⟨h1, h2⟩ := h.life.pc l pc hl
      refine ⟨(allocated_update l).2 ⟨h1, ?_⟩, h2⟩
      rintro rfl
      rw [show s.freePc l = some pc from hl] at hpc
      cases hpc
    · exact h.life.idle l ((allocated_update l).1 hl).1 hnone
    · intro l hl h1 h2 h3
      exact hkids' l (h.family.nil l ((hlinked' l).1 hl).1 h1 h2 h3)
    · intro l hl
      refine (hfirst l ?_).trans (h.family.free l hl)
      rintro rfl
      exact absurd ((h.idle_of_thread ht).2.1.symm.trans hl) (by simp)
    · intro q l
      show update s.pidOwner pid none q = some l ↔ (update s.allocated lwp false l = true ∧ s.freePc l ≠ some .free) ∧ s.pid l = q
      rw [hlinked', update_apply]
      by_cases hq : q = pid
      · rw [if_pos hq]
        refine ⟨fun e => (nomatch e), fun ⟨⟨hl, hne⟩, hlq⟩ => ?_⟩
        have h1 := (h.pids.owner pid l).2 ⟨hl, hlq.trans hq⟩
        have h2 := (h.pids.owner pid lwp).2 ⟨hlinked, hpid⟩
        exact absurd (Option.some.inj (h1.symm.trans h2)) hne
      · rw [if_neg hq, h.pids.owner]
        refine and_congr_left fun hlq => ⟨fun hl => ⟨hl, ?_⟩, fun hl => hl.1⟩
        rintro rfl
        exact hq (hlq.symm.trans hpid)
    · intro t' error' pc' ht'
      rcases of_update_eq ht' with ⟨-, heq⟩ | ⟨-, ht'⟩
      · have hself : self = lwp := congrArg LwpThread.lwp heq
        subst hself
        exact hnone t _ _ ht
      · exact hnone t' _ _ ht'
    · intro t' self' error' pid' l ht'
      rcases of_update_eq ht' with ⟨-, heq⟩ | ⟨-, ht'⟩
      · cases heq
      · obtain ⟨h1, h2, h3, h4⟩ := h.waits.wait t' self' error' pid' l ht'
        refine ⟨(hlinked' l).2 ⟨h1, ?_⟩, h2, h3, h4⟩
        rintro rfl
        rw [hnil] at h4
        cases h4
    · intro l hl
      refine (h.waits.list l ((hlinked' l).1 hl).1).imp_right ?_
      rintro ⟨t', self', error', pid', heq, ht'⟩
      have htt : t' ≠ t := by
        rintro rfl
        rw [ht] at ht'
        cases ht'
      exact ⟨t', self', error', pid', heq, (update_of_ne htt _ _).trans ht'⟩
    · intro t' self' pid' l ht'
      rcases of_update_eq ht' with ⟨-, heq⟩ | ⟨htt, ht'⟩
      · cases heq
      · obtain ⟨⟨h1, h2⟩, h3⟩ := h.waits.resumed t' self' pid' l ht'
        refine ⟨⟨(allocated_update l).2 ⟨h1, ?_⟩, h2⟩, h3⟩
        rintro rfl
        exact htt (h.waits.unique t' t self' self pid' pid l ht' ht)
    · intro t' t'' self' self'' pid' pid'' l ht' ht''
      rcases of_update_eq ht' with ⟨-, heq⟩ | ⟨-, ht'⟩
      · cases heq
      · rcases of_update_eq ht'' with ⟨-, heq⟩ | ⟨-, ht''⟩
        · cases heq
        · exact h.waits.unique t' t'' self' self'' pid' pid'' l ht' ht''
    · intro l hl
      obtain ⟨ha', hne⟩ := (allocated_update l).1 hl.1
      obtain ⟨hnil', t', self', pid', ht'⟩ := h.waits.handed l ⟨ha', hl.2⟩
      have htt : t' ≠ t := by
        rintro rfl
        rw [ht] at ht'
        cases ht'
        exact hne rfl
      exact ⟨hnil', t', self', pid', (update_of_ne htt _ _).trans ht'⟩
    · exact cons_iff h.logs.free_iff ha (h.life.lt lwp ha) allocated_update
    · exact List.nodup_cons.2 ⟨hfrees, h.logs.free_nodup⟩
    · exact cons_iff h.logs.put_iff hlinked (h.life.lt lwp ha) hlinked'
    · exact List.nodup_cons.2 ⟨fun hput => ((h.logs.put_iff lwp).1 hput).2 hlinked, h.logs.put_nodup⟩
    · intro q l v hlv
      rcases List.mem_cons.1 hlv with heq | hlv
      · cases heq
        exact ⟨List.mem_cons_self, hpid, rfl⟩
      · exact (h.logs.returned q l v hlv).imp_left (List.mem_cons_of_mem lwp)
    · refine List.nodup_cons.2 ⟨fun hmem => ?_, h.logs.returned_nodup⟩
      obtain ⟨⟨q, l, v⟩, hlv, rfl⟩ := List.mem_map.1 hmem
      exact hfrees (h.logs.returned q l v hlv).1
    · intro l
      rw [lastRet_append (by simp)]
      exact h.logs.ret l
  · rw [if_neg herror]
    have hold : ¬ LwpThread.Waiting ⟨self, error, .resumed pid lwp⟩ := by
      rintro ⟨pid, l, heq | ⟨heq, -⟩⟩
      · cases heq
      · exact herror heq
    refine ⟨_, kids, rfl, h.life.congr rfl rfl rfl rfl rfl,
      h.family.congr (fun _ => .rfl) (fun _ => id) rfl rfl rfl fun _ _ h1 h2 h3 => ⟨h1, h2, h3⟩,
      h.pids.congr (fun _ => .rfl) rfl rfl, h.members.goto ht rfl rfl rfl rfl,
      h.waits.congr_thread (fun _ => .rfl) (fun _ => .rfl) (fun _ _ _ _ _ _ => id) rfl rfl fun t' x hx =>
        waiting_update_iff (not_waiting_of_eq ht hold) ?_ hx,
      h.logs.congr (by simp) rfl (fun _ => .rfl) rfl rfl rfl rfl rfl rfl⟩
    intro x heq
    cases heq
    exact not_waiting_user

/-! ## A new process -/

theorem boot_inv (hev : ∀ t lwp value, ev ≠ .setRet t lwp value)
    (hpid : s.pidOwner pid = none) : ∃ kids' members', Inv (evs ++ [ev]) (s.fork pid none) kids' members' := by
  have ha : s.allocated s.nextLwp = false := by
    rw [← Bool.not_eq_true]
    exact fun ha => absurd (h.life.lt _ ha) (Nat.lt_irrefl _)
  have hpc : s.freePc s.nextLwp = none := by
    rw [Option.eq_none_iff_forall_ne_some]
    intro pc hpc
    rw [(h.life.pc _ pc hpc).1] at ha
    cases ha
  have hne : ∀ l, s.allocated l = true → l ≠ s.nextLwp := by
    rintro l hl rfl
    rw [ha] at hl
    cases hl
  have hlinked : ∀ l, (s.fork pid none).Linked l ↔ s.Linked l ∨ l = s.nextLwp := by
    intro l
    show update s.allocated s.nextLwp true l = true ∧ s.freePc l ≠ some .free ↔ s.Linked l ∨ l = s.nextLwp
    by_cases hl : l = s.nextLwp
    · subst hl
      simp [hpc]
    · rw [update_of_ne hl]
      exact ⟨.inl, fun hl' => hl'.resolve_right hl⟩
  have hnl : ¬ s.Linked s.nextLwp := fun hl => hne _ hl.1 rfl
  have hcases : ∀ l, (s.fork pid none).allocated l = true → l = s.nextLwp ∨ s.allocated l = true := by
    intro l hl
    by_cases hln : l = s.nextLwp
    · exact .inl hln
    · exact .inr ((update_of_ne hln _ _).symm.trans hl)
  have hlt : ∀ l, l ≠ s.nextLwp → (l < s.nextLwp + 1 ↔ l < s.nextLwp) := fun l hl => by omega
  have hnone : ∀ t error pc, s.thread t ≠ some ⟨s.nextLwp, error, pc⟩ :=
    fun t error pc ht => hne _ (h.members.thread t _ error pc ht).1 rfl
  refine ⟨update kids s.nextLwp [], _, ⟨fun l hl => ?_, fun l pc hl => ?_, fun l hl hn => ?_⟩,
    ⟨(h.family.forest.addRoot hnl none).congr hlinked, ?_, ?_⟩, ⟨fun q l => ?_⟩,
    (h.members.forget ha).add ?_ ?_ ?_ (.inr ⟨?_, hnone⟩) ?_ rfl rfl, ⟨?_, ?_, ?_, ?_, ?_⟩, ⟨?_, ?_, ?_, ?_, ?_, ?_, ?_⟩⟩
  · rcases hcases l hl with rfl | hl
    · exact Nat.lt_succ_self _
    · exact Nat.lt_succ_of_lt (h.life.lt l hl)
  · obtain ⟨h1, h2, h3, h4⟩ := h.life.pc l pc hl
    have hln := hne l h1
    exact ⟨(update_of_ne hln _ _).trans h1, (update_of_ne hln _ _).trans h2,
      (iff_of_eq (congrArg (· = true) (update_of_ne hln _ _))).trans h3, h4⟩
  · show update s.finish s.nextLwp false l = false ∧ 0 < update s.ref s.nextLwp 1 l ∨
      update s.finish s.nextLwp false l = true ∧ update s.ref s.nextLwp 1 l = 0
    rcases hcases l hl with rfl | hl
    · simp
    · rw [update_of_ne (hne l hl), update_of_ne (hne l hl)]
      exact h.life.idle l hl hn
  · intro l hl h1 h2 h3
    show update kids s.nextLwp [] l = []
    rcases (hlinked l).1 hl with hl | rfl
    · rw [update_of_ne (hne l hl.1)]
      exact h.family.nil l hl ((update_of_ne (hne l hl.1) _ _).symm.trans h1) h2 h3
    · exact update_self _ _ _
  · exact fun l hl => (update_of_ne (hne l (h.life.pc l _ hl).1) _ _).trans (h.family.free l hl)
  · rw [hlinked]
    show update s.pidOwner pid (some s.nextLwp) q = some l ↔ (s.Linked l ∨ l = s.nextLwp) ∧ update s.pid s.nextLwp pid l = q
    have hold : s.pidOwner q = some l ↔ (s.Linked l ∧ l ≠ s.nextLwp) ∧ s.pid l = q := by
      rw [h.pids.owner, and_assoc]
      exact and_congr_right fun hl => ⟨fun e => ⟨hne l hl.1, e⟩, fun e => e.2⟩
    by_cases hln : l = s.nextLwp
    · subst hln
      rw [update_self, update_apply]
      by_cases hq : q = pid
      · simp [hq]
      · rw [if_neg hq, hold]
        simp [Ne.symm hq]
    · rw [update_of_ne hln, update_apply]
      by_cases hq : q = pid
      · rw [if_pos hq]
        refine ⟨fun e => absurd (Option.some.inj e).symm hln, fun ⟨hl, hlq⟩ => ?_⟩
        have howner := (h.pids.owner q l).2 ⟨hl.resolve_right hln, hlq⟩
        rw [hq, hpid] at howner
        cases howner
      · rw [if_neg hq, h.pids.owner]
        exact and_congr_left fun _ => ⟨.inl, fun hl => hl.resolve_right hln⟩
  · exact update_self _ _ _
  · exact fun l hl => update_of_ne hl _ _
  · show update s.ref s.nextLwp 1 s.nextLwp = (update members s.nextLwp [] s.nextLwp).length + 1
    rw [update_self, update_self]
    rfl
  · exact update_self _ _ _
  · exact fun l hl => update_of_ne hl _ _
  · intro t self error pid' l ht
    rcases of_update_eq ht with ⟨-, heq⟩ | ⟨-, ht⟩
    · cases heq
    · obtain ⟨h1, h2, h3, h4⟩ := h.waits.wait t self error pid' l ht
      have hln := hne l h1.1
      exact ⟨(hlinked l).2 (.inl h1), (update_of_ne hln _ _).trans h2, (update_of_ne hln _ _).trans h3,
        (update_of_ne hln _ _).trans h4⟩
  · intro l hl
    rcases (hlinked l).1 hl with hl | rfl
    · have hln := hne l hl.1
      refine (h.waits.list l hl).imp (fun heq => (update_of_ne hln _ _).trans heq) ?_
      rintro ⟨t, self, error, pid', heq, ht⟩
      have htn : t ≠ s.nextThread := fun e => absurd (h.members.thread t _ _ _ ht).2 (e ▸ Nat.lt_irrefl _)
      exact ⟨t, self, error, pid', (update_of_ne hln _ _).trans heq, (update_of_ne htn _ _).trans ht⟩
    · exact .inl (update_self _ _ _)
  · intro t self pid' l ht
    obtain ⟨⟨h1, h2, h3⟩, h4, h5⟩ := h.waits.resumed t self pid' l (resumed_of_update (by simp) ht)
    have hln := hne l h1
    exact ⟨⟨(update_of_ne hln _ _).trans h1, h2, (update_of_ne hln _ _).trans h3⟩,
      (update_of_ne hln _ _).trans h4, (update_of_ne hln _ _).trans h5⟩
  · exact fun t t' self self' pid' pid'' l ht ht' =>
      h.waits.unique t t' self self' pid' pid'' l (resumed_of_update (by simp) ht) (resumed_of_update (by simp) ht')
  · intro l hl
    rcases hcases l hl.1 with rfl | ha'
    · exact absurd ((update_self _ _ _).symm.trans hl.2.2) Bool.false_ne_true
    · have hln := hne l ha'
      have hfin := (update_of_ne hln _ _).symm.trans hl.2.2
      obtain ⟨hnil, t, self, pid', ht⟩ := h.waits.handed l ⟨ha', hl.2.1, hfin⟩
      have htn : t ≠ s.nextThread := fun e => absurd (h.members.thread t _ _ _ ht).2 (e ▸ Nat.lt_irrefl _)
      exact ⟨(update_of_ne hln _ _).trans hnil, t, self, pid', (update_of_ne htn _ _).trans ht⟩
  · intro l
    refine (h.logs.free_iff l).trans ?_
    show l < s.nextLwp ∧ ¬ s.allocated l = true ↔ l < s.nextLwp + 1 ∧ ¬ update s.allocated s.nextLwp true l = true
    by_cases hln : l = s.nextLwp
    · simp [hln]
    · rw [update_of_ne hln, hlt l hln]
  · exact h.logs.free_nodup
  · intro l
    refine (h.logs.put_iff l).trans ?_
    rw [hlinked]
    show l < s.nextLwp ∧ ¬ s.Linked l ↔ l < s.nextLwp + 1 ∧ ¬ (s.Linked l ∨ l = s.nextLwp)
    by_cases hln : l = s.nextLwp
    · simp [hln]
    · rw [hlt l hln, or_iff_left hln]
  · exact h.logs.put_nodup
  · intro q l v hlv
    obtain ⟨hfree, hq, hv⟩ := h.logs.returned q l v hlv
    have hln := Nat.ne_of_lt ((h.logs.free_iff l).1 hfree).1
    exact ⟨hfree, (update_of_ne hln _ _).trans hq, hv.trans (update_of_ne hln _ _).symm⟩
  · exact h.logs.returned_nodup
  · intro l
    rw [lastRet_append hev, h.logs.ret]
    show _ = if l < s.nextLwp + 1 then update s.lwpRet s.nextLwp 0 l else 0
    by_cases hln : l = s.nextLwp
    · simp [hln]
    · rw [update_of_ne hln]
      simp only [hlt l hln]

end

/-- A new process is linked to its parent. -/
theorem adopt_inv (h : Inv evs s kids members) (hlinked : s.Linked l) (hroot : s.parent l = none)
    (hfin : s.finish l = false) (hnil : s.waitList l = []) (hp : s.Linked p) (hpfin : s.finish p = false) :
    Inv evs { s with
      sibling := update s.sibling l (s.firstChild p)
      firstChild := update s.firstChild p (some l)
      parent := update s.parent l (some p) } (update kids p (l :: kids p)) members := by
  refine ⟨⟨h.life.lt, h.life.pc, h.life.idle⟩, ⟨h.family.forest.adopt hp hlinked hroot, ?_, ?_⟩, ⟨h.pids.owner⟩,
    ⟨h.members.ref, h.members.nodup, h.members.mem_iff, h.members.thread⟩, ⟨?_, h.waits.list, ?_, h.waits.unique, h.waits.handed⟩,
    ⟨h.logs.free_iff, h.logs.free_nodup, h.logs.put_iff, h.logs.put_nodup, h.logs.returned, h.logs.returned_nodup,
      h.logs.ret⟩⟩
  · intro m hm h1 h2 h3
    have hmp : m ≠ p := by
      rintro rfl
      exact absurd (hpfin.symm.trans h1) Bool.false_ne_true
    rw [update_of_ne hmp]
    exact h.family.nil m hm h1 h2 h3
  · intro m hm
    have hmp : m ≠ p := by
      rintro rfl
      exact hp.2 hm
    exact (update_of_ne hmp _ _).trans (h.family.free m hm)
  · intro t self error pid m ht
    obtain ⟨h1, h2, h3, h4⟩ := h.waits.wait t self error pid m ht
    have hne : m ≠ l := by
      rintro rfl
      rw [hnil] at h4
      cases h4
    exact ⟨h1, (update_of_ne hne _ _).trans h2, h3, h4⟩
  · intro t self pid m ht
    obtain ⟨h1, h2, h3⟩ := h.waits.resumed t self pid m ht
    have hne : m ≠ l := by
      rintro rfl
      exact absurd (hfin.symm.trans h1.2.2) Bool.false_ne_true
    exact ⟨h1, (update_of_ne hne _ _).trans h2, h3⟩

theorem fork_inv (h : Inv evs s kids members) (ht : s.thread t = some ⟨self, error, .user⟩) (hpid : s.pidOwner pid = none) :
    ∃ kids' members', Inv (evs ++ [.fork pid (some self)]) (s.fork pid (some self)) kids' members' := by
  obtain ⟨kids', members', h'⟩ := h.boot_inv (show ∀ t lwp value, LwpEv.fork pid (some self) ≠ .setRet t lwp value by simp) hpid
  have htn : t ≠ s.nextThread := Nat.ne_of_lt (h.members.thread t _ _ _ ht).2
  have ht' : (s.fork pid none).thread t = some ⟨self, error, .user⟩ := (update_of_ne htn _ _).trans ht
  have hlinked : (s.fork pid none).Linked s.nextLwp := by
    have howner : (s.fork pid none).pidOwner pid = some s.nextLwp := update_self _ _ _
    exact ((h'.pids.owner pid _).1 howner).1
  refine ⟨_, members', h'.adopt_inv hlinked ?_ ?_ ?_ (h'.linked_of_thread ht') (h'.idle_of_thread ht').2.2.1⟩
  · exact update_self _ _ _
  · exact update_self _ _ _
  · exact update_self _ _ _

end Inv

end RtThread.LwpWorld
