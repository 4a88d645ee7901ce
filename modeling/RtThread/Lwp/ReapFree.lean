import RtThread.Lwp.ReapSteps

/-!
# The steps of `lwp_free`

`free_inv`: every step of `lwp_free` keeps the invariant and has a result, where the loop over the children does not find
a finished one.
-/

namespace RtThread.LwpWorld

open Function (update update_apply update_of_ne update_self)
open Sibling (Forest)

variable {s s' : LwpWorld} {kids members : Nat → List Nat} {evs : List LwpEv} {ev : LwpEv} {l p t self pid : Nat}
  {error : Int} {pc pc' : FreePc}

namespace Inv

/-- The structure is not linked in any more, and has no pid. -/
theorem linked_putSelf_iff (hpc : s.freePc l ≠ some .free) (m : Nat) :
    s.allocated m = true ∧ update s.freePc l (some .free) m ≠ some .free ↔ s.Linked m ∧ m ≠ l := by
  by_cases hml : m = l
  · subst hml
    rw [update_self]
    exact ⟨fun e => absurd rfl e.2, fun e => absurd rfl e.2⟩
  · rw [update_of_ne hml]
    exact ⟨fun e => ⟨e, hml⟩, fun e => e.1⟩

section

variable (h : Inv evs s kids members)

include h

/-- `lwp_free` goes on, with the links between the structures changed at most for the children. -/
theorem step_inv (hpc : s.freePc l = some pc) (hnf : pc ≠ .free)
    (hpc' : pc' ≠ .finish ∧ pc' ≠ .free ∧ ∀ c, pc' ≠ .freeChild c) {parent firstChild sibling : Nat → Option Nat}
    {kids' : Nat → List Nat} (hforest : Forest s.Linked parent firstChild sibling kids')
    (hparent : ∀ c, s.parent c ≠ some l → parent c = s.parent c) (hkids : ∀ q, q ≠ l → kids' q = kids q)
    (hfirst : ∀ q, q ≠ l → firstChild q = s.firstChild q)
    (hnil : pc' = .release ∨ pc' = .children ∨ kids' l = []) : Inv (evs ++ [.free l]) { s with
      parent := parent, firstChild := firstChild, sibling := sibling
      finish := update s.finish l true, freePc := update s.freePc l (some pc') } kids' members := by
  obtain ⟨ha, href, -, -⟩ := h.life.pc l pc hpc
  have hlinked : ∀ m, Linked { s with
      parent := parent, firstChild := firstChild, sibling := sibling
      finish := update s.finish l true, freePc := update s.freePc l (some pc') } m ↔ s.Linked m := by
    refine linked_iff_of_eq rfl fun m => ?_
    dsimp only
    by_cases hml : m = l
    · subst hml
      rw [update_self, hpc]
      simp [hnf, hpc'.2.1]
    · rw [update_of_ne hml]
  refine ⟨⟨h.life.lt, fun m q hm => ?_, fun m hm hn => ?_⟩, ⟨hforest.congr hlinked, fun m hm h1 h2 h3 => ?_, fun m hm => ?_⟩,
    h.pids.congr hlinked rfl rfl, h.members.congr rfl rfl rfl rfl,
    h.waits.congr_thread hlinked (fun m => ?_) ?_ rfl rfl fun _ _ _ => .rfl,
    h.logs.congr (by simp) rfl hlinked rfl rfl rfl rfl rfl rfl⟩
  · dsimp only at hm ⊢
    by_cases hml : m = l
    · subst hml
      rw [update_self] at hm
      cases hm
      rw [update_self]
      exact ⟨ha, href, iff_of_true rfl hpc'.1, hpc'.2.2⟩
    · rw [update_of_ne hml] at hm ⊢
      exact h.life.pc m q hm
  · dsimp only at hn ⊢
    by_cases hml : m = l
    · subst hml
      rw [update_self] at hn
      cases hn
    · rw [update_of_ne hml] at hn ⊢
      exact h.life.idle m hm hn
  · dsimp only at h1 h2 h3
    by_cases hml : m = l
    · subst hml
      rw [update_self] at h2 h3
      rcases hnil with rfl | rfl | hnil
      · exact absurd rfl h2
      · exact absurd rfl h3
      · exact hnil
    · rw [update_of_ne hml] at h1 h2 h3
      rw [hkids m hml]
      exact h.family.nil m ((hlinked m).1 hm) h1 h2 h3
  · dsimp only at hm
    by_cases hml : m = l
    · subst hml
      rw [update_self] at hm
      exact absurd (Option.some.inj hm) hpc'.2.1
    · rw [update_of_ne hml] at hm
      exact (hfirst m hml).trans (h.family.free m hm)
  · show s.allocated m = true ∧ update s.freePc l (some pc') m = none ∧ update s.finish l true m = true ↔ s.Handed m
    by_cases hml : m = l
    · subst hml
      simp [Handed, hpc]
    · rw [update_of_ne hml, update_of_ne hml]
      exact .rfl
  · intro t self error pc ht m hm
    refine (hparent m fun e => ?_).trans hm
    cases hm.symm.trans e
    exact h.no_thread hpc ht

/-- The pid is given back, and the structure is unlinked. -/
theorem putSelf_inv (hpc : s.freePc l = some .parent)
    (hlist : ∀ t self error pid, s.thread t = some ⟨self, error, .wait pid l⟩ → False)
    {firstChild sibling : Nat → Option Nat} {kids' : Nat → List Nat}
    (hforest : Forest (fun x => s.Linked x ∧ x ≠ l) s.parent firstChild sibling kids')
    (hkids : ∀ q, kids q = [] → kids' q = []) (hfirst : ∀ q, q = l ∨ s.freePc q = some .free → firstChild q = none) :
    Inv (evs ++ [.free l]) ({ s with firstChild := firstChild, sibling := sibling }.putSelf l) kids' members := by
  obtain ⟨ha, href, hfin, -⟩ := h.life.pc l _ hpc
  have hl : s.Linked l := ⟨ha, by rw [hpc]; simp⟩
  have hlinked := linked_putSelf_iff hl.2
  refine ⟨⟨h.life.lt, fun m q hm => ?_, fun m hm hn => ?_⟩, ⟨hforest.congr hlinked, fun m hm h1 h2 h3 => ?_, fun m hm => ?_⟩,
    ⟨fun q m => ?_⟩, h.members.congr rfl rfl rfl rfl, ⟨?_, ?_, ?_, h.waits.unique, ?_⟩,
    ⟨h.logs.free_iff, h.logs.free_nodup, ?_, ?_, h.logs.returned, h.logs.returned_nodup, ?_⟩⟩
  · by_cases hml : m = l
    · subst hml
      have hm : update s.freePc m (some .free) m = some q := hm
      rw [update_self] at hm
      cases hm
      exact ⟨ha, href, iff_of_true (hfin.2 (by simp)) (by simp), by simp⟩
    · exact h.life.pc m q ((update_of_ne hml _ _).symm.trans hm)
  · by_cases hml : m = l
    · subst hml
      exact absurd ((update_self _ _ _).symm.trans hn) (by simp)
    · exact h.life.idle m hm ((update_of_ne hml _ _).symm.trans hn)
  · obtain ⟨hm, hml⟩ := (hlinked m).1 hm
    refine hkids m (h.family.nil m hm h1 ?_ ?_)
    · exact fun e => h2 ((update_of_ne hml _ _).trans e)
    · exact fun e => h3 ((update_of_ne hml _ _).trans e)
  · by_cases hml : m = l
    · exact hfirst m (.inl hml)
    · exact hfirst m (.inr ((update_of_ne hml _ _).symm.trans hm))
  · refine Iff.trans ?_ (and_congr_left fun _ => (hlinked m).symm)
    show update s.pidOwner (s.pid l) none q = some m ↔ (s.Linked m ∧ m ≠ l) ∧ s.pid m = q
    rw [update_apply]
    by_cases hq : q = s.pid l
    · rw [if_pos hq]
      refine ⟨fun e => (nomatch e), fun ⟨⟨hm, hml⟩, hmq⟩ => ?_⟩
      have h1 := (h.pids.owner q m).2 ⟨hm, hmq⟩
      have h2 := (h.pids.owner q l).2 ⟨hl, hq.symm⟩
      exact absurd (Option.some.inj (h1.symm.trans h2)) hml
    · rw [if_neg hq, h.pids.owner]
      refine and_congr_left fun hmq => ⟨fun hm => ⟨hm, ?_⟩, fun hm => hm.1⟩
      rintro rfl
      exact hq hmq.symm
  · intro t self error pid m ht
    obtain ⟨h1, h2, h3, h4⟩ := h.waits.wait t self error pid m ht
    refine ⟨(hlinked m).2 ⟨h1, ?_⟩, h2, h3, h4⟩
    rintro rfl
    exact hlist t self error pid ht
  · exact fun m hm => h.waits.list m ((hlinked m).1 hm).1
  · intro t self pid m ht
    obtain ⟨⟨h1, h2⟩, h3⟩ := h.waits.resumed t self pid m ht
    have hml : m ≠ l := by
      rintro rfl
      rw [hpc] at h2
      cases h2.1
    exact ⟨⟨h1, (update_of_ne hml _ _).trans h2.1, h2.2⟩, h3⟩
  · rintro m ⟨h1, h2, h3⟩
    have hml : m ≠ l := by
      rintro rfl
      exact absurd ((update_self _ _ _).symm.trans h2) (by simp)
    exact h.waits.handed m ⟨h1, (update_of_ne hml _ _).symm.trans h2, h3⟩
  · exact cons_iff h.logs.put_iff hl (h.life.lt l ha) hlinked
  · exact List.nodup_cons.2 ⟨fun hput => ((h.logs.put_iff l).1 hput).2 hl, h.logs.put_nodup⟩
  · intro m
    rw [lastRet_append (by simp)]
    exact h.logs.ret m

/-- The structure is left to the waiting thread, which is resumed. -/
theorem handOff_inv (hpc : s.freePc l = some .parent)
    (ht : s.thread t = some ⟨self, error, .wait pid l⟩) :
    Inv (evs ++ [.free l]) ({ s with waitList := update s.waitList l [], freePc := update s.freePc l none }.goto t
      ⟨self, RT_EOK, .wait pid l⟩ (.resumed pid l)) kids members := by
  obtain ⟨hl, hparent, hpid, hlist⟩ := h.waits.wait t self error pid l ht
  obtain ⟨ha, href, hfin, -⟩ := h.life.pc l _ hpc
  have hfin : s.finish l = true := hfin.2 (by simp)
  have hne : ∀ m, s.Handed m → m ≠ l := by
    rintro m ⟨-, hm, -⟩ rfl
    rw [hpc] at hm
    cases hm
  have hlinked : ∀ m, ({ s with waitList := update s.waitList l [], freePc := update s.freePc l none }.goto t
      ⟨self, RT_EOK, .wait pid l⟩ (.resumed pid l)).Linked m ↔ s.Linked m := by
    refine linked_iff_of_eq rfl fun m => ?_
    show update s.freePc l none m = some .free ↔ _
    by_cases hml : m = l
    · subst hml
      rw [update_self, hpc]
      simp
    · rw [update_of_ne hml]
  refine ⟨⟨h.life.lt, fun m q hm => ?_, fun m hm hn => ?_⟩, h.family.congr hlinked (fun m hm => ?_) rfl rfl rfl fun m _ h1 h2 h3 => ?_,
    h.pids.congr hlinked rfl rfl, h.members.goto ht rfl rfl rfl rfl, ⟨?_, ?_, ?_, ?_, ?_⟩,
    h.logs.congr (by simp) rfl hlinked rfl rfl rfl rfl rfl rfl⟩
  · by_cases hml : m = l
    · subst hml
      exact absurd ((update_self _ _ _).symm.trans hm) (by simp)
    · exact h.life.pc m q ((update_of_ne hml _ _).symm.trans hm)
  · by_cases hml : m = l
    · subst hml
      exact .inr ⟨hfin, href⟩
    · exact h.life.idle m hm ((update_of_ne hml _ _).symm.trans hn)
  · by_cases hml : m = l
    · subst hml
      exact absurd ((update_self _ _ _).symm.trans hm) (by simp)
    · exact (update_of_ne hml _ _).symm.trans hm
  · by_cases hml : m = l
    · subst hml
      rw [hpc]
      exact ⟨hfin, by simp, by simp⟩
    · exact ⟨h1, fun e => h2 ((update_of_ne hml _ _).trans e), fun e => h3 ((update_of_ne hml _ _).trans e)⟩
  · intro t' self' error' pid' m ht'
    rcases of_update_eq ht' with ⟨-, heq⟩ | ⟨htt, ht'⟩
    · cases heq
    · obtain ⟨h1, h2, h3, h4⟩ := h.waits.wait t' self' error' pid' m ht'
      have hml : m ≠ l := by
        rintro rfl
        rw [hlist] at h4
        exact htt (List.cons.inj h4).1.symm
      exact ⟨(hlinked m).2 h1, h2, h3, (update_of_ne hml _ _).trans h4⟩
  · intro m hm
    by_cases hml : m = l
    · subst hml
      exact .inl (update_self _ _ _)
    · refine (h.waits.list m ((hlinked m).1 hm)).imp (fun heq => (update_of_ne hml _ _).trans heq) ?_
      rintro ⟨t', self', error', pid', heq, ht'⟩
      have htt : t' ≠ t := by
        rintro rfl
        rw [ht] at ht'
        cases ht'
        exact hml rfl
      exact ⟨t', self', error', pid', (update_of_ne hml _ _).trans heq, (update_of_ne htt _ _).trans ht'⟩
  · intro t' self' pid' m ht'
    rcases of_update_eq ht' with ⟨-, heq⟩ | ⟨-, ht'⟩
    · cases heq
      exact ⟨⟨ha, update_self _ _ _, hfin⟩, hparent, hpid⟩
    · obtain ⟨h1, h2⟩ := h.waits.resumed t' self' pid' m ht'
      have hml := hne m h1
      exact ⟨⟨h1.1, (update_of_ne hml _ _).trans h1.2.1, h1.2.2⟩, h2⟩
  · intro t' t'' self' self'' pid' pid'' m ht' ht''
    rcases of_update_eq ht' with ⟨heq', heq⟩ | ⟨-, h1⟩
    · obtain rfl : l = m := (WaitPc.resumed.inj (LwpThread.mk.inj heq).2.2).2
      rcases of_update_eq ht'' with ⟨heq'', -⟩ | ⟨-, h2⟩
      · exact heq'.trans heq''.symm
      · exact absurd rfl (hne _ (h.waits.resumed t'' self'' pid'' _ h2).1)
    · rcases of_update_eq ht'' with ⟨-, heq⟩ | ⟨-, h2⟩
      · obtain rfl : l = m := (WaitPc.resumed.inj (LwpThread.mk.inj heq).2.2).2
        exact absurd rfl (hne _ (h.waits.resumed t' self' pid' _ h1).1)
      · exact h.waits.unique t' t'' self' self'' pid' pid'' m h1 h2
  · rintro m ⟨h1, h2, h3⟩
    by_cases hml : m = l
    · subst hml
      exact ⟨update_self _ _ _, t, self, pid, update_self _ _ _⟩
    · obtain ⟨hnil, t', self', pid', ht'⟩ := h.waits.handed m ⟨h1, (update_of_ne hml _ _).symm.trans h2, h3⟩
      have htt : t' ≠ t := by
        rintro rfl
        rw [ht] at ht'
        cases ht'
      exact ⟨(update_of_ne hml _ _).trans hnil, t', self', pid', (update_of_ne htt _ _).trans ht'⟩

/-- The structure is freed. -/
theorem release_inv (hpc : s.freePc l = some .free) : Inv (evs ++ [.free l]) { s with
      allocated := update s.allocated l false, frees := l :: s.frees, freePc := update s.freePc l none } kids members := by
  obtain ⟨ha, -⟩ := h.life.pc l _ hpc
  have hnl : ¬ s.Linked l := fun hl => hl.2 hpc
  have hlinked : ∀ m, Linked { s with
      allocated := update s.allocated l false, frees := l :: s.frees, freePc := update s.freePc l none } m ↔
      s.Linked m := by
    intro m
    show update s.allocated l false m = true ∧ update s.freePc l none m ≠ some .free ↔ s.Linked m
    by_cases hml : m = l
    · subst hml
      simp [hnl]
    · rw [update_of_ne hml, update_of_ne hml]
      exact .rfl
  have hfrees : l ∉ s.frees := fun hfree => ((h.logs.free_iff l).1 hfree).2 ha
  have hmem : Members { s with allocated := update s.allocated l false } members :=
    h.members.free (fun t error pc => h.no_thread hpc) rfl rfl rfl rfl
  refine ⟨⟨fun m hm => ?_, fun m q hm => ?_, fun m hm hn => ?_⟩, h.family.congr hlinked (fun m hm => ?_) rfl rfl rfl fun m hm h1 h2 h3 => ?_,
    h.pids.congr hlinked rfl rfl, hmem.congr rfl rfl rfl rfl,
    h.waits.congr_thread hlinked (fun m => ?_) (fun _ _ _ _ _ _ => id) rfl rfl fun _ _ _ => .rfl,
    ⟨?_, ?_, fun m => ?_, h.logs.put_nodup, ?_, h.logs.returned_nodup, ?_⟩⟩
  · exact h.life.lt m ((allocated_update m).1 hm).1
  · by_cases hml : m = l
    · subst hml
      exact absurd ((update_self _ _ _).symm.trans hm) (by simp)
    · obtain ⟨h1, h2⟩ := h.life.pc m q ((update_of_ne hml _ _).symm.trans hm)
      exact ⟨(allocated_update m).2 ⟨h1, hml⟩, h2⟩
  · obtain ⟨hm, hml⟩ := (allocated_update m).1 hm
    exact h.life.idle m hm ((update_of_ne hml _ _).symm.trans hn)
  · by_cases hml : m = l
    · rw [hml]
      exact hpc
    · exact (update_of_ne hml _ _).symm.trans hm
  · have hml : m ≠ l := fun e => hnl (e ▸ hm)
    exact ⟨h1, fun e => h2 ((update_of_ne hml _ _).trans e), fun e => h3 ((update_of_ne hml _ _).trans e)⟩
  · show update s.allocated l false m = true ∧ update s.freePc l none m = none ∧ s.finish m = true ↔ s.Handed m
    by_cases hml : m = l
    · subst hml
      simp [Handed, hpc]
    · rw [update_of_ne hml, update_of_ne hml]
      exact .rfl
  · exact cons_iff h.logs.free_iff ha (h.life.lt l ha) allocated_update
  · exact List.nodup_cons.2 ⟨hfrees, h.logs.free_nodup⟩
  · rw [hlinked]
    exact h.logs.put_iff m
  · intro q m v hmv
    exact (h.logs.returned q m v hmv).imp_left (List.mem_cons_of_mem l)
  · intro m
    rw [lastRet_append (by simp)]
    exact h.logs.ret m

/-- The next step of `lwp_free`, where the loop over the children does not find a finished one. -/
theorem free_inv (hpc : s.freePc l = some pc)
    (hclean : pc = .children → ∀ c, InList s (s.firstChild l) c → s.finish c = false) :
    ∃ s' kids', s.lwpFree l pc = some s' ∧ Inv (evs ++ [.free l]) s' kids' members := by
  obtain ⟨ha, -, hfin, hnc⟩ := h.life.pc l pc hpc
  have hl : pc ≠ .free → s.Linked l := fun hne => ⟨ha, by rw [hpc]; exact fun e => hne (Option.some.inj e)⟩
  have hsame : pc ≠ .finish → update s.finish l true = s.finish :=
    fun hne => Function.update_eq_self_iff.2 (hfin.2 hne).symm
  cases pc with
  | finish =>
    rw [lwpFree, if_pos ha]
    exact ⟨_, kids, rfl, h.step_inv hpc (by simp) (by simp) h.family.forest (fun _ _ => rfl) (fun _ _ => rfl) (fun _ _ => rfl) (.inl rfl)⟩
  | release =>
    have hstep := h.step_inv hpc (by simp) (show FreePc.children ≠ .finish ∧ FreePc.children ≠ .free ∧ _ by simp)
      h.family.forest (fun _ _ => rfl) (fun _ _ => rfl) (fun _ _ => rfl) (.inr (.inl rfl))
    rw [hsame (by simp)] at hstep
    rw [lwpFree, if_pos ha]
    exact ⟨_, kids, rfl, hstep⟩
  | children =>
    have hl := hl (by simp)
    have hchain := h.family.forest.chain l hl
    obtain ⟨parent, firstChild, sibling, kids', hr, hforest, hnil, hother, hfirst, hparent⟩ :=
      childrenLoop_spec h.family.forest hl rfl (fun c hc => hclean rfl c ((inList_of_chain hchain).2 hc))
        (Nat.lt_succ_of_le (h.kids_length_le hl))
    have hstep := h.step_inv hpc (by simp) (show FreePc.terminal ≠ .finish ∧ FreePc.terminal ≠ .free ∧ _ by simp)
      hforest (fun c hc => hparent c fun hmem => hc ((h.family.forest.mem_iff l hl c).1 hmem).2) hother hfirst (.inr (.inr hnil))
    rw [hsame (by simp)] at hstep
    rw [lwpFree, if_pos ha]
    exact ⟨_, kids', hr, hstep⟩
  | freeChild c => exact absurd rfl (hnc c)
  | terminal =>
    have hnil : kids l = [] := h.family.nil l (hl (by simp)) (hfin.2 (by simp)) (by simp [hpc]) (by simp [hpc])
    have hstep := h.step_inv hpc (by simp) (show FreePc.parent ≠ .finish ∧ FreePc.parent ≠ .free ∧ _ by simp)
      h.family.forest (fun _ _ => rfl) (fun _ _ => rfl) (fun _ _ => rfl) (.inr (.inr hnil))
    rw [hsame (by simp)] at hstep
    rw [lwpFree, if_pos ha]
    exact ⟨_, kids, rfl, hstep⟩
  | parent =>
    have hl := hl (by simp)
    have hnil : kids l = [] := h.family.nil l hl (hfin.2 (by simp)) (by simp [hpc]) (by simp [hpc])
    have hfirst : s.firstChild l = none := by
      have hchain := h.family.forest.chain l hl
      rw [hnil] at hchain
      exact hchain
    rw [lwpFree, if_pos ha]
    rw [freeParent]
    cases hp : s.parent l with
    | none =>
      refine ⟨_, kids, rfl, h.putSelf_inv hpc ?_ (h.family.forest.removeRoot hl hp hnil) (fun _ => id) ?_⟩
      · intro t self error pid ht
        rw [(h.waits.wait t self error pid l ht).2.1] at hp
        cases hp
      · rintro q (rfl | hq)
        · exact hfirst
        · exact h.family.free q hq
    | some p =>
      dsimp only
      rcases h.waits.list l hl with hempty | ⟨t, self, error, pid, hlist, ht⟩
      · obtain ⟨firstChild, sibling, kids', hunlink, hforest, hkids, hrest⟩ := unlink_spec h hl hp hnil
        have hpl := h.family.forest.parent l p hl hp
        rw [hempty, hunlink]
        refine ⟨_, kids', rfl, h.putSelf_inv hpc ?_ hforest hkids ?_⟩
        · intro t self error pid ht
          rw [(h.waits.wait t self error pid l ht).2.2.2] at hempty
          cases hempty
        · rintro q (rfl | hq)
          · refine (hrest q ?_).trans hfirst
            rintro rfl
            exact h.family.forest.parent_ne hl hnil hl hp
          · refine (hrest q ?_).trans (h.family.free q hq)
            rintro rfl
            exact hpl.2 hq
      · rw [hlist]
        dsimp only
        rw [ht]
        exact ⟨_, kids, rfl, h.handOff_inv hpc ht⟩
  | free =>
    rw [lwpFree, if_pos ha]
    rw [rtFree, if_pos ha]
    exact ⟨_, kids, rfl, h.release_inv hpc⟩

end

end Inv

end RtThread.LwpWorld
