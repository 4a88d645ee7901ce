import RtThread.Lib.Runs
import RtThread.Lwp.ReapFree

/-!
# Runs up to the end of processes

- `reaped_of_run`: while no process finds a finished child, in `waitpid` or at the loop over its children, every structure
  is freed once, after its pid was given back once and after it was unlinked from its parent, and is not accessed any more;
  and a `waitpid` that returns a pid stores the last value that the child set;
- `reap_used_after_free`: a child is finished before it is torn down, and the parent that finds it so frees it.
-/

namespace RtThread.LwpWorld

open Function (update)
open Runs (Run)

variable {s s' : LwpWorld} {kids members : Nat → List Nat} {evs : List LwpEv} {ev : LwpEv} {l : Nat}

/-- What the end of processes promises: about memory and pids, and about `waitpid`. -/
structure Reaped (evs : List LwpEv) (s : LwpWorld) : Prop where
  freed_once : s.frees.Nodup
  put_once : s.puts.Nodup
  put_of_freed : ∀ l ∈ s.frees, l ∈ s.puts
  /-- A freed structure is not in the list of a parent. -/
  unlinked : ∀ p, s.allocated p = true → ∀ c, InList s (s.firstChild p) c → c ∉ s.frees
  /-- What is not freed is a running process, or has one that is going to free it. -/
  owned : ∀ l, l < s.nextLwp → l ∉ s.frees → 0 < s.ref l ∨ (∃ pc, s.freePc l = some pc) ∨
    ∃! t, ∃ self pid, s.thread t = some ⟨self, RT_EOK, .resumed pid l⟩
  /-- No next step accesses what is freed. -/
  lwpFree : ∀ l pc, s.freePc l = some pc → s.lwpFree l pc ≠ none
  exit : ∀ t self error, s.thread t = some ⟨self, error, .user⟩ →
    { s with thread := update s.thread t none }.lwpRefDec self ≠ none
  waitpid : ∀ t self error pid, s.thread t = some ⟨self, error, .user⟩ → s.waitpid t ⟨self, error, .user⟩ pid ≠ none
  resumed : ∀ t self error pid l, s.thread t = some ⟨self, error, .resumed pid l⟩ →
    s.waitpidResumed t ⟨self, error, .resumed pid l⟩ pid l ≠ none
  /-- What `waitpid(pid)` returned. -/
  returned : ∀ pid l v, (pid, l, v) ∈ s.returned → s.pid l = pid ∧ l ∈ s.frees ∧ v = lastRet evs l
  returned_once : (s.returned.map fun r => r.2.1).Nodup

/-- No finished child is found. -/
def Clean (s : LwpWorld) : LwpEv → Prop
  | .waitpid t pid => ∀ self error l, s.thread t = some ⟨self, error, .user⟩ → s.pidOwner pid = some l →
      s.parent l = some self → s.finish l = false
  | .free l => s.freePc l = some .children → ∀ c, InList s (s.firstChild l) c → s.finish c = false
  | _ => True

def CleanStep (s : LwpWorld) (ev : LwpEv) (s' : LwpWorld) : Prop := Step s ev s' ∧ Clean s ev

namespace Inv

theorem init_inv : Inv [] init (fun _ => []) fun _ => [] := by
  refine ⟨⟨?_, ?_, ?_⟩, ⟨⟨?_, ?_, ?_, ?_⟩, ?_, ?_⟩, ⟨?_⟩, ⟨?_, ?_, ?_, ?_⟩, ⟨?_, ?_, ?_, ?_, ?_⟩, ⟨?_, ?_, ?_, ?_, ?_, ?_, ?_⟩⟩
  all_goals simp [init, Linked, Handed, lastRet]

/-- Every step that finds no finished child keeps the invariant. -/
theorem cleanStep_inv (h : Inv evs s kids members) (hs : CleanStep s ev s') :
    ∃ kids' members', Inv (evs ++ [ev]) s' kids' members' := by
  obtain ⟨hs, hclean⟩ := hs
  cases hs with
  | boot hpid => exact h.boot_inv (by simp) hpid
  | fork ht hpid => exact h.fork_inv ht hpid
  | spawn ht => exact ⟨_, _, h.spawn_inv ht⟩
  | setRet ht => exact ⟨_, _, h.setRet_inv ht⟩
  | exit ht hr =>
    obtain ⟨s'', hr', hinv⟩ := h.exit_inv ht
    cases hr.symm.trans hr'
    exact ⟨_, _, hinv⟩
  | interrupt ht => exact ⟨_, _, h.interrupt_inv ht⟩
  | free hpc hr =>
    obtain ⟨s'', kids', hr', hinv⟩ := h.free_inv hpc fun e => hclean (hpc.trans (congrArg some e))
    cases hr.symm.trans hr'
    exact ⟨kids', _, hinv⟩
  | waitpid ht hr =>
    obtain ⟨s'', hr', hinv⟩ := h.waitpid_inv ht fun lwp => hclean _ _ lwp ht
    cases hr.symm.trans hr'
    exact ⟨_, _, hinv⟩
  | resumed ht hr =>
    obtain ⟨s'', kids', hr', hinv⟩ := h.resumed_inv ht
    cases hr.symm.trans hr'
    exact ⟨kids', _, hinv⟩

/-- `waitpid` accesses nothing that is freed, whether it finds a finished child or not. -/
theorem waitpid_ne_none (h : Inv evs s kids members) {t self pid : Nat} {error : Int}
    (ht : s.thread t = some ⟨self, error, .user⟩) : s.waitpid t ⟨self, error, .user⟩ pid ≠ none := by
  by_cases hclean : ∀ l, s.pidOwner pid = some l → s.parent l = some self → s.finish l = false
  · obtain ⟨s', hr, -⟩ := h.waitpid_inv ht hclean
    rw [hr]
    exact Option.some_ne_none _
  · -- a finished child is found
    simp only [not_forall] at hclean
    obtain ⟨l, hown, hparent, hfin⟩ := hclean
    have hlinked := ((h.pids.owner pid l).1 hown).1
    obtain ⟨-, ys, -, -, hunlink⟩ := unlink_eq h hlinked hparent
    have ha : (s.put (lastPlace (.firstChild self) ys) (s.sibling l)).allocated l = true := by
      cases lastPlace (.firstChild self) ys with
      | firstChild p => exact hlinked.1
      | sibling p => exact hlinked.1
    rw [LwpWorld.waitpid, hown]
    dsimp only
    rw [if_pos hlinked.1, if_neg (not_not.2 hparent), if_pos (Bool.not_eq_false _ ▸ hfin), reap, if_pos hlinked.1, hunlink]
    dsimp only
    rw [rtFree, lwpPidPut, if_pos ha]
    exact Option.some_ne_none _

theorem lwpFree_ne_none (h : Inv evs s kids members) {pc : FreePc} (hpc : s.freePc l = some pc) :
    s.lwpFree l pc ≠ none := by
  by_cases hch : pc = .children
  · subst hch
    have hl : s.Linked l := ⟨(h.life.pc l _ hpc).1, by simp [hpc]⟩
    rw [LwpWorld.lwpFree, if_pos hl.1]
    exact childrenLoop_ne_none (h.family.forest.chain l hl) (h.family.forest.nodup l hl)
      (fun c hc => ((h.family.forest.mem_iff l hl c).1 hc).1.1) (Nat.lt_succ_of_le (h.kids_length_le hl))
  · obtain ⟨s', -, hr, -⟩ := h.free_inv hpc fun e => absurd e hch
    rw [hr]
    exact Option.some_ne_none _

theorem reaped (h : Inv evs s kids members) : Reaped evs s := by
  refine ⟨h.logs.free_nodup, h.logs.put_nodup, fun l hl => ?_, fun p hp c hc => ?_, fun l hlt hl => ?_,
    fun l pc => h.lwpFree_ne_none, fun t self error ht => ?_, fun t self error pid => h.waitpid_ne_none,
    fun t self error pid l ht => ?_, fun pid l v hv => ?_, h.logs.returned_nodup⟩
  · obtain ⟨hlt, ha⟩ := (h.logs.free_iff l).1 hl
    exact (h.logs.put_iff l).2 ⟨hlt, fun hlinked => ha hlinked.1⟩
  · have hlinked : s.Linked p := by
      refine ⟨hp, fun hpc => ?_⟩
      rw [h.family.free p hpc] at hc
      cases hc
    have hmem := (inList_of_chain (h.family.forest.chain p hlinked)).1 hc
    have hlc := ((h.family.forest.mem_iff p hlinked c).1 hmem).1
    exact fun hfree => ((h.logs.free_iff c).1 hfree).2 hlc.1
  · have ha : s.allocated l = true := not_not.1 fun ha => hl ((h.logs.free_iff l).2 ⟨hlt, ha⟩)
    cases hpc : s.freePc l with
    | some pc => exact .inr (.inl ⟨pc, rfl⟩)
    | none =>
      rcases h.life.idle l ha hpc with ⟨-, hpos⟩ | ⟨hfin, -⟩
      · exact .inl hpos
      · obtain ⟨-, t, self, pid, ht⟩ := h.waits.handed l ⟨ha, hpc, hfin⟩
        refine .inr (.inr ⟨t, ⟨self, pid, ht⟩, ?_⟩)
        rintro t' ⟨self', pid', ht'⟩
        exact h.waits.unique t' t self' self pid' pid l ht' ht
  · obtain ⟨s', hr, -⟩ := h.exit_inv ht
    rw [hr]
    exact Option.some_ne_none _
  · obtain ⟨s', -, hr, -⟩ := h.resumed_inv ht
    rw [hr]
    exact Option.some_ne_none _
  · obtain ⟨hfree, hpid, hv⟩ := h.logs.returned pid l v hv
    refine ⟨hpid, hfree, hv.trans ?_⟩
    rw [h.logs.ret l, if_pos ((h.logs.free_iff l).1 hfree).1]

end Inv

theorem reaped_of_run (hr : Run CleanStep init evs s) : Reaped evs s := by
  have hinv : ∃ kids members, Inv evs s kids members := by
    refine hr.history (I := fun evs s => ∃ kids members, Inv evs s kids members) ⟨_, _, Inv.init_inv⟩ ?_
    rintro evs s ev s' ⟨kids, members, h⟩ hs
    exact h.cleanStep_inv hs
  obtain ⟨kids, members, h⟩ := hinv
  exact h.reaped

theorem clean_waitpid {t pid : Nat} (hown : s.pidOwner pid = some l) (hfin : s.finish l = false) :
    Clean s (.waitpid t pid) := by
  intro _ _ l' _ hown' _
  cases hown.symm.trans hown'
  exact hfin

theorem clean_free_of_ne (h : s.freePc l ≠ some .children) : Clean s (.free l) := fun e => absurd e h

theorem clean_free_of_none (h : s.firstChild l = none) : Clean s (.free l) := by
  intro _ c hc
  rw [h] at hc
  cases hc

/-- A child returns 7 to its parent, which waits for it. -/
theorem reaped_of_run_wait :
    ∃ evs s, Run CleanStep init evs s ∧ s.frees = [1] ∧ s.returned = [(2, 1, 7)] ∧ Reaped evs s := by
  have h1 : Run CleanStep init ([] ++ [.fork 1 none]) _ := .snoc .nil ⟨.boot rfl, trivial⟩
  have h2 : Run CleanStep init (_ ++ [.fork 2 (some 0)]) _ := h1.snoc ⟨@Step.fork _ 0 2 0 0 rfl rfl, trivial⟩
  have h3 : Run CleanStep init (_ ++ [.setRet 1 1 7]) _ := h2.snoc ⟨@Step.setRet _ 1 1 0 7 rfl, trivial⟩
  have h4 : Run CleanStep init (_ ++ [.waitpid 0 2]) _ :=
    h3.snoc ⟨@Step.waitpid _ _ 0 2 0 0 rfl rfl, @clean_waitpid _ 1 0 2 rfl rfl⟩
  have h5 : Run CleanStep init (_ ++ [.exit 1]) _ := h4.snoc ⟨@Step.exit _ _ 1 1 0 rfl rfl, trivial⟩
  have h6 : Run CleanStep init (_ ++ [.free 1]) _ :=
    h5.snoc ⟨@Step.free _ _ 1 .finish rfl rfl, clean_free_of_ne (by decide)⟩
  have h7 : Run CleanStep init (_ ++ [.free 1]) _ :=
    h6.snoc ⟨@Step.free _ _ 1 .release rfl rfl, clean_free_of_ne (by decide)⟩
  have h8 : Run CleanStep init (_ ++ [.free 1]) _ :=
    h7.snoc ⟨@Step.free _ _ 1 .children rfl rfl, clean_free_of_none rfl⟩
  have h9 : Run CleanStep init (_ ++ [.free 1]) _ :=
    h8.snoc ⟨@Step.free _ _ 1 .terminal rfl rfl, clean_free_of_ne (by decide)⟩
  have h10 : Run CleanStep init (_ ++ [.free 1]) _ :=
    h9.snoc ⟨@Step.free _ _ 1 .parent rfl rfl, clean_free_of_ne (by decide)⟩
  have h11 : Run CleanStep init (_ ++ [.resumed 0]) _ := h10.snoc ⟨@Step.resumed _ _ 0 0 2 1 0 rfl rfl, trivial⟩
  exact ⟨_, _, h11, rfl, rfl, reaped_of_run h11⟩

/-- A child has set `finish`, and its parent calls `waitpid`. -/
theorem reap_used_after_free : ∃ evs s, Run Step init evs s ∧ ¬ Reaped evs s := by
  have h1 : Run Step init ([] ++ [.fork 1 none]) _ := .snoc .nil (.boot rfl)
  have h2 : Run Step init (_ ++ [.fork 2 (some 0)]) _ := h1.snoc (@Step.fork _ 0 2 0 0 rfl rfl)
  have h3 : Run Step init (_ ++ [.exit 1]) _ := h2.snoc (@Step.exit _ _ 1 1 0 rfl rfl)
  have h4 : Run Step init (_ ++ [.free 1]) _ := h3.snoc (@Step.free _ _ 1 .finish rfl rfl)
  have h5 : Run Step init (_ ++ [.waitpid 0 2]) _ := h4.snoc (@Step.waitpid _ _ 0 2 0 0 rfl rfl)
  exact ⟨_, _, h5, fun h => h.lwpFree 1 .release rfl rfl⟩

end RtThread.LwpWorld
