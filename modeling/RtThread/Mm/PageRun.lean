import RtThread.Lib.Runs
import RtThread.Mm.PageLists

/-!
# Allocating and freeing pages

What the calls do to the blocks (`Core.alloc`, `Inv.step`), and that blocks in use determine the free lists up to order
(`Core.restored`).
-/

namespace RtThread.PageState

open Buddy (Holds Tiled Reduced buddy)

variable {c : PageConfig} {s s' : PageState} {l l' : PageList} {p q x k j a b lo hi : Nat} {d e : Nat × Nat}
  {free free' : PageList → Nat → List Nat} {busy busy' : List (Nat × Nat)} {Z : Prop}

/-! ## The loops -/

/-- The first page of a block is one of the region. -/
theorem Core.first_mem (h : Core c a b lo hi s free busy) (hd : d ∈ busy ∨ IsFree free d) :
    a ≤ d.1 ∧ d.1 < b ∧ 2 ^ d.2 ∣ d.1 ∧ d.2 < c.maxOrder := by
  have h1 := h.tiled.inside d d.1 hd (Buddy.holds_self d)
  have h2 := h.tiled.order d hd
  have h3 := c.maxOrder_pos
  exact ⟨h1.1, h1.2, h.tiled.aligned d hd, by omega⟩

theorem side_buddy (hp : 2 ^ k ∣ p) (hk : k < c.maxOrder - 1) : c.side (buddy p k) = c.side p := by
  have hm : 2 ^ (k + 1) ∣ min p (buddy p k) := Buddy.min_dvd hp
  have h1 : Holds (min p (buddy p k), k + 1) p ∧ Holds (min p (buddy p k), k + 1) (buddy p k) := by
    rcases Buddy.buddy_cases hp with ⟨-, hb⟩ | ⟨h1, -, hb⟩ <;> rw [hb] <;> simp only [Holds, Nat.pow_succ] <;> omega
  rw [side_eq_of_holds (d := (min p (buddy p k), k + 1)) hm hk h1.1,
    side_eq_of_holds (d := (min p (buddy p k), k + 1)) hm hk h1.2]

/-- A block in use takes in its free buddy. -/
theorem Core.takeBuddy (h : Core c a b lo hi s free ((p, k) :: busy)) (hk : k < c.maxOrder - 1)
    (hq : buddy p k ∈ free l k) :
    ∃ free', Core c a b lo hi (s.pageRemove c l (buddy p k) k) free'
      ((if p < buddy p k then p else buddy p k, k + 1) :: busy) := by
  have hp : 2 ^ k ∣ p := h.tiled.aligned (p, k) (.inl List.mem_cons_self)
  have hrem := h.remove hq
  generalize setFree free l k ((free l k).erase (buddy p k)) = f at hrem
  generalize s.pageRemove c l (buddy p k) k = t at hrem ⊢
  refine ⟨f, ?_⟩
  rcases Buddy.buddy_cases hp with ⟨h1, hb⟩ | ⟨h1, h2, hb⟩
  · rw [if_pos (by omega)]
    apply Core.merge _ h1 hk
    rw [hb] at hrem
    exact hrem.perm (List.Perm.swap ..)
  · rw [if_neg (by omega)]
    have hsum : p = buddy p k + 2 ^ k := by omega
    apply Core.merge _ (hb ▸ h2) hk
    rw [← hsum]
    exact hrem

/-- Taking a block off its list does not touch the records of the blocks in use. -/
theorem Core.remove_page (h : Core c a b lo hi s free busy) (hp : p ∈ free l k) (hd : d ∈ busy) :
    (s.pageRemove c l p k).page d.1 = s.page d.1 := by
  have hlinks := h.links l k (h.order hp)
  have hne : d.1 ≠ p := fun e => h.not_free_of_busy (k := d.2) hd (e ▸ hp)
  have hpre : (s.page p).pre ≠ some d.1 := by
    intro e
    rcases hlinks.pre_mem hp with hnone | ⟨y, hy, hyp⟩
    · cases hnone.symm.trans e
    · obtain rfl : y = d.1 := Option.some.inj (hyp.symm.trans e)
      exact h.not_free_of_busy (k := d.2) hd hy
  have hnext : (s.page p).next ≠ some d.1 := fun e => h.not_free_of_busy (k := d.2) hd (hlinks.next_mem hp e)
  rw [pageRemove_page (hlinks.pre_ne (h.nodup l k) (by simp) hp) hne, if_neg hpre, if_neg hnext]

/-- Two blocks in use do not start at one page. -/
theorem Core.busy_ne (h : Core c a b lo hi s free ((p, k) :: busy)) (hd : d ∈ busy) : d.1 ≠ p := by
  intro he
  have heq := h.tiled.apart d (p, k) p (.inl (List.mem_cons_of_mem _ hd)) (.inl List.mem_cons_self)
    (he ▸ Buddy.holds_self d) (Buddy.holds_self (p, k))
  exact (List.nodup_cons.1 h.busy_nodup).1 (heq ▸ hd)

/-- Nor does putting one on a list. -/
theorem Core.insert_page (h : Core c a b lo hi s free ((p, k) :: busy)) (hd : d ∈ busy) (l : PageList) {j : Nat}
    (hj : j < c.maxOrder) : (s.pageInsert l p j).page d.1 = s.page d.1 := by
  have hhead : s.list l j ≠ some d.1 := by
    intro e
    rw [(h.links l j hj).head_eq] at e
    exact h.not_free_of_busy (k := d.2) (List.mem_cons_of_mem _ hd) (List.mem_of_head? e)
  rw [pageInsert_page, if_neg (h.busy_ne hd), if_neg hhead]

variable {n : Nat} {insert : Insert}

/-- Merging goes on up to a block whose buddy is not free. -/
theorem Core.mergeLoop (hr : c.Region a b lo hi) (h : Core c a b lo hi s free ((p, k) :: busy))
    (hn : k + n = c.maxOrder - 1) : ∃ s' p' k' free', s.mergeLoop c (c.side p) p k n = (s', p', k') ∧
      Core c a b lo hi s' free' ((p', k') :: busy) ∧ c.side p' = c.side p ∧
      (k' < c.maxOrder - 1 → ¬ IsFree free' (buddy p' k', k')) ∧ Kept s s' ∧ ∀ d ∈ busy, s'.page d.1 = s.page d.1 := by
  induction n generalizing s p k free with
  | zero =>
    refine ⟨s, p, k, free, rfl, h, rfl, ?_, Kept.refl s, fun _ _ => rfl⟩
    intro hk
    omega
  | succ n ih =>
    have hk : k < c.maxOrder - 1 := by omega
    obtain ⟨h1, h2, hp, -⟩ := h.first_mem (.inl List.mem_cons_self)
    have hget : c.buddyGet p k = buddy p k := hr.buddyGet p k h1 h2 hk hp
    obtain ⟨h3, h4⟩ := hr.shadow p k h1 h2 hk hp
    simp only [PageState.mergeLoop, hget]
    split
    · rename_i htag
      have hfree : IsFree free (buddy p k, k) := by
        have := h.tag (buddy p k) h3 h4 (by omega)
        rwa [htag] at this
      obtain ⟨l', hq⟩ := hfree
      have hside : l' = c.side p := (h.side l' k _ hq).trans (side_buddy hp hk)
      subst hside
      obtain ⟨free1, hcore⟩ := h.takeBuddy hk hq
      have hside1 : c.side (if p < buddy p k then p else buddy p k) = c.side p := by
        split
        · rfl
        · exact side_buddy hp hk
      obtain ⟨s', p', k', free', hloop, hcore', hs, hnf, hkept, htags⟩ := ih hcore (by omega)
      rw [hside1] at hloop hs
      refine ⟨s', p', k', free', hloop, hcore', hs, hnf, (pageRemove_kept s _ _ k).trans hkept, ?_⟩
      intro d hd
      rw [htags d hd]
      exact h.remove_page hq (List.mem_cons_of_mem _ hd)
    · rename_i htag
      refine ⟨s, p, k, free, rfl, h, rfl, fun _ => ?_, Kept.refl s, fun _ _ => rfl⟩
      rintro ⟨l', hq⟩
      exact htag (h.free_tag l' k _ hq)

/-- Splitting puts the lower halves on the lists and keeps the last upper half. -/
theorem Core.splitLoop (hr : c.Region a b lo hi)
    (hins : ∀ s l p k, a ≤ p → p < b → insert s l p k = some (s.pageInsert l p k))
    (h : Core c a b lo hi s free ((p, k + n) :: busy)) :
    ∃ s' q free', splitLoop c insert s (c.side p) p k n = some (s', q) ∧
      Core c a b lo hi s' free' ((q, k) :: busy) ∧ c.side q = c.side p ∧ Kept s s' ∧
      ∀ d ∈ busy, s'.page d.1 = s.page d.1 := by
  induction n generalizing s p free with
  | zero => exact ⟨s, p, free, rfl, h, rfl, Kept.refl s, fun _ _ => rfl⟩
  | succ n ih =>
    obtain ⟨h1, h2, hp, h3⟩ := h.first_mem (.inl List.mem_cons_self)
    have hp' : 2 ^ (k + n + 1) ∣ p := hp
    have hdvd : 2 ^ (k + n) ∣ p := Buddy.dvd_of_le hp' (Nat.le_succ _)
    have hk : k + n < c.maxOrder - 1 := by
      omega
    have hbuddy : buddy p (k + n) = p + 2 ^ (k + n) := Buddy.buddy_of_dvd hp'
    have hget : c.buddyGet p (k + n) = p + 2 ^ (k + n) := (hr.buddyGet p _ h1 h2 hk hdvd).trans hbuddy
    have hsplit := Core.split (k := k + n) h
    have hnot : ¬ IsFree free (buddy p (k + n), k + n) := by
      rw [hbuddy]
      exact hsplit.busy_free _ (by simp)
    have hcore := hsplit.insert fun _ => hnot
    have hside : c.side (p + 2 ^ (k + n)) = c.side p := hbuddy ▸ side_buddy hdvd hk
    obtain ⟨s', q, free', hloop, hcore', hs, hkept, htags⟩ := ih hcore
    rw [hside] at hloop hs
    refine ⟨s', q, free', ?_, hcore', hs, (pageInsert_kept s _ p _).trans hkept, ?_⟩
    · simp only [PageState.splitLoop, hins s _ p _ h1 h2, hget]
      exact hloop
    · intro d hd
      rw [htags d hd]
      exact h.insert_page hd _ (by omega)

/-! ## Allocating -/

theorem findLevel_eq_some (h : s.findLevel c l k = some n) : k ≤ n ∧ n < c.maxOrder ∧ (s.list l n).isSome := by
  have hmem := List.mem_of_find?_eq_some h
  have hsome := List.find?_some h
  rw [List.mem_range'_1] at hmem
  exact ⟨hmem.1, by omega, hsome⟩

/-- What an allocation does: nothing, or it hands out a block. -/
theorem Core.alloc (hr : c.Region a b lo hi)
    (hins : ∀ s l p k, a ≤ p → p < b → insert s l p k = some (s.pageInsert l p k))
    (h : Core c a b lo hi s free busy) (hk : k < c.maxOrder) (l : PageList) :
    pagesAllocBy c insert s l k = some (s, none) ∨
    ∃ s' q free', pagesAllocBy c insert s l k = some (s', some q) ∧ Core c a b lo hi s' free' ((q, k) :: busy) ∧
      (s'.page q).sizeBits = c.addressWidthBits ∧ (s'.page q).refCnt = 1 ∧
      (∀ x, x ≠ q → (s'.page x).refCnt = (s.page x).refCnt) ∧ s'.live = s.live ∧
      (∀ d ∈ busy, s'.page d.1 = s.page d.1) := by
  simp only [pagesAllocBy, if_pos hk]
  cases hfind : s.findLevel c l k with
  | none => exact .inl rfl
  | some n =>
    right
    obtain ⟨hkn, hn, hsome⟩ := findLevel_eq_some hfind
    obtain ⟨p, hp⟩ := Option.isSome_iff_exists.1 hsome
    have hpf : p ∈ free l n := by
      rw [(h.links l n hn).head_eq] at hp
      exact List.mem_of_head? hp
    have hl : l = c.side p := h.side l n p hpf
    subst hl
    have hrem := h.remove hpf
    have hsum : n = k + (n - k) := by omega
    rw [hsum] at hrem
    obtain ⟨s1, q, free1, hloop, hcore, -, hkept, htags⟩ := hrem.splitLoop hr hins
    rw [← hsum] at hloop hkept htags
    have hkept' := (pageRemove_kept s (c.side p) p n).trans hkept
    refine ⟨(s1.setSizeBits q c.addressWidthBits).setRefCnt q 1, q, free1, ?_, ?_, ?_, ?_, ?_, hkept'.live, ?_⟩
    · simp only [hp, hloop]
    · exact hcore.setSizeBits.setRefCnt q 1
    · rw [setRefCnt_page, if_pos rfl, setSizeBits_page, if_pos rfl]
    · rw [setRefCnt_page, if_pos rfl]
    · intro x hx
      rw [setRefCnt_page, if_neg hx, setSizeBits_page, if_neg hx]
      exact hkept'.refCnt x
    · intro d hd
      rw [setRefCnt_page, if_neg (hcore.busy_ne hd), setSizeBits_page, if_neg (hcore.busy_ne hd), htags d hd]
      exact h.remove_page hpf hd

/-! ## The invariant -/

/-- The blocks in use are those of the callers, whose reference counts are positive. If the counts were zero to start
with (`Z`), those of the other pages are. -/
structure Inv (c : PageConfig) (a b lo hi : Nat) (Z : Prop) (s : PageState) (free : PageList → Nat → List Nat) : Prop where
  core : Core c a b lo hi s free s.live
  live_tag : ∀ d ∈ s.live, (s.page d.1).sizeBits = c.addressWidthBits
  live_ref : ∀ d ∈ s.live, (s.page d.1).refCnt ≠ 0
  zero : Z → ∀ x, a ≤ x → x < b → (∀ d ∈ s.live, d.1 ≠ x) → (s.page x).refCnt = 0

/-- What `_do_pages_alloc` does. -/
theorem Inv.doAlloc (hr : c.Region a b lo hi)
    (hins : ∀ s l p k, a ≤ p → p < b → insert s l p k = some (s.pageInsert l p k))
    (h : Inv c a b lo hi Z s free) (hk : k < c.maxOrder) (flags : Nat) :
    s.doPagesAlloc c (pagesAllocBy c insert) k flags = some (s, none) ∨
    ∃ s' q free', s.doPagesAlloc c (pagesAllocBy c insert) k flags = some (s', some (c.pageToAddr q)) ∧
      Inv c a b lo hi Z s' free' ∧ s'.live = (q, k) :: s.live ∧ ∀ d ∈ s.live, s'.page d.1 = s.page d.1 := by
  have hand : ∀ {s1 : PageState} {q : Nat} {f : PageList → Nat → List Nat}, Core c a b lo hi s1 f ((q, k) :: s.live) →
      (s1.page q).sizeBits = c.addressWidthBits → (s1.page q).refCnt = 1 →
      (∀ x, x ≠ q → (s1.page x).refCnt = (s.page x).refCnt) → s1.live = s.live →
      (∀ d ∈ s.live, s1.page d.1 = s.page d.1) →
      Inv c a b lo hi Z { s1 with live := (q, k) :: s1.live } f := by
    intro s1 q f h1 h2 h3 h4 h5 h6
    constructor
    · rw [h5]
      exact { h1 with }
    · intro d hd
      rcases List.mem_cons.1 hd with rfl | hd
      · exact h2
      · rw [h5] at hd
        exact (congrArg RtPage.sizeBits (h6 d hd)).trans (h.live_tag d hd)
    · intro d hd
      show (s1.page d.1).refCnt ≠ 0
      by_cases hdq : d.1 = q
      · rw [hdq, h3]
        decide
      · rcases List.mem_cons.1 hd with rfl | hd
        · exact absurd rfl hdq
        · rw [h4 d.1 hdq]
          exact h.live_ref d (h5 ▸ hd)
    · intro hz x h7 h8 h9
      have hxq : x ≠ q := fun e => h9 (q, k) List.mem_cons_self e.symm
      show (s1.page x).refCnt = 0
      rw [h4 x hxq]
      exact h.zero hz x h7 h8 fun d hd => h9 d (List.mem_cons_of_mem _ (h5 ▸ hd))
  simp only [doPagesAlloc]
  rcases h.core.alloc hr hins hk (s.flagToPageList flags) with h1 | ⟨s1, q, f, h1, h2, h3, h4, h5, h6, h7⟩
  · simp only [h1]
    split
    · rcases h.core.alloc hr hins hk .low with h1 | ⟨s1, q, f, h1, h2, h3, h4, h5, h6, h7⟩
      · simp only [h1]
        exact .inl rfl
      · simp only [h1]
        refine .inr ⟨_, q, f, rfl, hand h2 h3 h4 h5 h6 h7, ?_, h7⟩
        rw [h6]
    · exact .inl rfl
  · simp only [h1]
    refine .inr ⟨{ s1 with live := (q, k) :: s1.live }, q, f, ?_, hand h2 h3 h4 h5 h6 h7, ?_, h7⟩
    · simp [handOut]
    · rw [h6]

/-! ## Freeing -/

/-- Freeing a block decrements its count; at zero the block goes back, merged with its buddies. -/
theorem Inv.doFree (hr : c.Region a b lo hi) (h : Inv c a b lo hi Z s free) (hd : (p, k) ∈ s.live) :
    ∃ s' real free', s.rtPagesFree c (c.pageToAddr p) k = some (s', real) ∧ Inv c a b lo hi Z s' free' ∧
      (real = true ↔ (s.page p).refCnt = 1) ∧
      (s'.live = if real then s.live.erase (p, k) else s.live) ∧
      ∀ d ∈ s.live, d ∈ s'.live →
        (s'.page d.1).next = (s.page d.1).next ∧ (s'.page d.1).pre = (s.page d.1).pre := by
  obtain ⟨h1, h2, -, h4⟩ := h.core.first_mem (.inl hd)
  have htag := h.live_tag _ hd
  have href := h.live_ref _ hd
  simp only [rtPagesFree, hr.addrToPage p h1 h2, hr.getPageList p h1 h2, pagesFree,
    if_pos (And.intro (hr.record p h1 h2) (And.intro href (And.intro htag h4)))]
  have hcnt : ((s.setRefCnt p ((s.page p).refCnt - 1)).page p).refCnt = (s.page p).refCnt - 1 := by
    rw [setRefCnt_page, if_pos rfl]
  have hother : ∀ x, x ≠ p → (s.setRefCnt p ((s.page p).refCnt - 1)).page x = s.page x := by
    intro x hx
    rw [setRefCnt_page, if_neg hx]
  have hone : (s.page p).refCnt - 1 = 0 ↔ (s.page p).refCnt = 1 := by
    constructor
    · intro he
      have : (s.page p).refCnt = ((s.page p).refCnt - 1) + 1 := by grind
      rw [this, he]
      rfl
    · intro he
      rw [he]
      rfl
  have hperm : s.live.Perm ((p, k) :: s.live.erase (p, k)) := List.perm_cons_erase hd
  rw [hcnt]
  by_cases hz : (s.page p).refCnt - 1 ≠ 0
  · rw [if_pos hz]
    refine ⟨s.setRefCnt p ((s.page p).refCnt - 1), false, free, rfl, ?_, ?_, rfl, ?_⟩
    · constructor
      · exact h.core.setRefCnt p _
      · intro d hd'
        rw [setRefCnt_page]
        split
        · exact htag
        · exact h.live_tag d hd'
      · intro d hd'
        rw [setRefCnt_page]
        split
        · exact hz
        · exact h.live_ref d hd'
      · intro hz x h5 h6 h7
        rw [hother x (fun e => h7 (p, k) hd e.symm)]
        exact h.zero hz x h5 h6 h7
    · simpa using fun e => hz (hone.2 e)
    · intro d _ _
      rw [setRefCnt_page]
      split
      · rename_i he
        rw [he]
        exact ⟨rfl, rfl⟩
      · exact ⟨rfl, rfl⟩
  · rw [if_neg hz]
    have hz' := not_not.1 hz
    have hcore := (h.core.perm hperm).setRefCnt p ((s.page p).refCnt - 1)
    obtain ⟨s1, p1, k1, f1, hloop, hcore1, hside, hnf, hkept, htags⟩ :=
      hcore.mergeLoop hr (n := c.maxOrder - 1 - k) (by omega)
    have hin := hcore1.insert hnf
    have hkept' := hkept.trans (pageInsert_kept s1 (c.side p) p1 k1)
    rw [hside] at hin
    have hsame : ∀ d ∈ s.live.erase (p, k), (s1.pageInsert (c.side p) p1 k1).page d.1 = s.page d.1 := by
      intro d hd'
      have hk1 : k1 < c.maxOrder := (hcore1.first_mem (.inl List.mem_cons_self)).2.2.2
      rw [hcore1.insert_page hd' _ hk1, htags d hd', hother d.1 ((h.core.perm hperm).busy_ne hd')]
    simp only [hloop]
    refine ⟨{ s1.pageInsert (c.side p) p1 k1 with live := (s1.pageInsert (c.side p) p1 k1).live.erase (p, k) }, true,
      setFree f1 (c.side p) k1 (p1 :: f1 (c.side p) k1), rfl, ?_, ?_, ?_, ?_⟩
    · have hlive : (s1.pageInsert (c.side p) p1 k1).live = s.live := hkept'.live
      constructor
      · simp only [hlive]
        exact { hin with }
      · intro d hd'
        simp only [hlive] at hd' ⊢
        rw [hsame d hd']
        exact h.live_tag d (List.mem_of_mem_erase hd')
      · intro d hd'
        simp only [hlive] at hd' ⊢
        rw [hsame d hd']
        exact h.live_ref d (List.mem_of_mem_erase hd')
      · intro hzero x h5 h6 h7
        simp only [hlive] at h7 ⊢
        rw [hkept'.refCnt]
        by_cases hx : x = p
        · rw [hx, hcnt, hz']
        · rw [hother x hx]
          apply h.zero hzero x h5 h6
          intro d hd' he
          by_cases hdp : d = (p, k)
          · exact hx (by rw [← he, hdp])
          · exact h7 d ((List.mem_erase_of_ne hdp).2 hd') he
    · exact iff_of_true rfl (hone.1 hz')
    · rw [hkept'.live]
      rfl
    · intro d _ hd'
      simp only [show (s1.pageInsert (c.side p) p1 k1).live = s.live from hkept'.live] at hd'
      rw [hsame d hd']
      exact ⟨rfl, rfl⟩

/-- The count of a block is incremented, whichever of its pages is named. -/
theorem Inv.refInc (hr : c.Region a b lo hi) (h : Inv c a b lo hi Z s free) (hd : (p, k) ∈ s.live)
    (hx : Holds (p, k) x) (hmax : (s.page p).refCnt + 1 ≠ 0) :
    s.pagesRefInc x k = some (s.setRefCnt p ((s.page p).refCnt + 1)) ∧
      Inv c a b lo hi Z (s.setRefCnt p ((s.page p).refCnt + 1)) free := by
  obtain ⟨h1, h2, h3, h4⟩ := h.core.first_mem (.inl hd)
  have hxb : x < b := (h.core.tiled.inside (p, k) x (.inl hd) hx).2
  have hsmall := hr.small
  have hidx : PageConfig.down (x % 2 ^ 32) (2 ^ k) = p := by
    rw [Nat.mod_eq_of_lt (by omega), PageConfig.down]
    have hq := (Buddy.holds_iff (d := (p, k)) h3).1 hx
    have hx' := Nat.div_add_mod x (2 ^ k)
    have hp' := Nat.mul_div_cancel' h3
    rw [hq, hp'] at hx'
    omega
  constructor
  · simp only [pagesRefInc, hidx]
    rw [if_neg (by omega)]
  · constructor
    · exact h.core.setRefCnt p _
    · intro d hd'
      rw [setRefCnt_page]
      split
      · exact h.live_tag _ hd
      · exact h.live_tag d hd'
    · intro d hd'
      rw [setRefCnt_page]
      split
      · exact hmax
      · exact h.live_ref d hd'
    · intro hz y h5 h6 h7
      rw [setRefCnt_page, if_neg fun e => h7 (p, k) hd e.symm]
      exact h.zero hz y h5 h6 h7

/-- Blocks in use determine the free ones. -/
theorem Core.restored (h : Core c a b lo hi s free busy) (h' : Core c a b lo hi s' free' busy')
    (hp : busy.Perm busy') (l : PageList) (k : Nat) : (free l k).Perm (free' l k) := by
  have hleft : ∀ {s free busy}, Core c a b lo hi s free busy → ∀ x,
      ((a ≤ x ∧ x < b) ∧ ∀ d, (d ∈ busy ∨ IsFree free d) → ¬ IsFree free d → ¬ Holds d x) ↔
        (a ≤ x ∧ x < b) ∧ ∀ d ∈ busy, ¬ Holds d x := by
    intro s free busy h x
    constructor
    · rintro ⟨h1, h2⟩
      exact ⟨h1, fun d hd => h2 d (.inl hd) (h.busy_free d hd)⟩
    · rintro ⟨h1, h2⟩
      exact ⟨h1, fun d hd hnf => h2 d (hd.resolve_right hnf)⟩
  have hcells : (fun x => (a ≤ x ∧ x < b) ∧ ∀ d, (d ∈ busy ∨ IsFree free d) → ¬ IsFree free d → ¬ Holds d x) =
      fun x => (a ≤ x ∧ x < b) ∧ ∀ d, (d ∈ busy' ∨ IsFree free' d) → ¬ IsFree free' d → ¬ Holds d x := by
    funext x
    rw [eq_iff_iff, hleft h x, hleft h' x]
    simp only [hp.mem_iff]
  have ht := h.tiled.without fun d (hd : IsFree free d) => .inr hd
  have ht' := h'.tiled.without fun d (hd : IsFree free' d) => .inr hd
  rw [hcells] at ht
  have hmem : ∀ {free free' : PageList → Nat → List Nat} {s s' : PageState} {busy busy' : List (Nat × Nat)},
      Core c a b lo hi s free busy → Core c a b lo hi s' free' busy' → (∀ d, IsFree free d → IsFree free' d) →
      ∀ p ∈ free l k, p ∈ free' l k := by
    intro free free' s s' busy busy' h h' hsub p hp
    obtain ⟨l', hp'⟩ := hsub (p, k) ⟨l, hp⟩
    have : l' = l := (h'.side l' k p hp').trans (h.side l k p hp).symm
    exact this ▸ hp'
  rw [List.perm_ext_iff_of_nodup (h.nodup l k) (h'.nodup l k)]
  intro p
  exact ⟨hmem h h' (fun d => ht.unique h.reduced ht' h'.reduced) p,
    hmem h' h (fun d => ht'.unique h'.reduced ht h.reduced) p⟩

end RtThread.PageState
