import RtThread.Mm.PageInit

/-!
# The buddy allocator

Whatever callers allocate, refer to and free, the page frames of a region after its records are in free blocks and in
those of the callers, each in one; blocks are aligned and no two buddies are free; and the blocks in use determine the
free lists (`buddy_pages`).
-/

namespace RtThread.PageState

open Buddy (Holds)
open PageConfig (down)

/-- The steps: orders that the lists have, references to the pages of a block in use, which its count has room for, and
the order with which a block was allocated. -/
def Step (c : PageConfig) (s : PageState) (x : Ev × Ret) (s' : PageState) : Prop :=
  s.step c x.1 = some (s', x.2) ∧
    match x.1 with
    | .alloc k _ => k < c.maxOrder
    | .refInc addr k => ∃ p, (p, k) ∈ s.live ∧ Holds (p, k) (c.addrToPage addr) ∧ (s.page p).refCnt + 1 ≠ 0
    | .free addr k => ∃ p, (p, k) ∈ s.live ∧ addr = c.pageToAddr p

/-- The blocks of the page frames `[a, b)`: those on the lists and those of the callers. `Z` says that the reference
counts were zero to start with. -/
structure Sound (c : PageConfig) (a b : Nat) (Z : Prop) (s : PageState) (free : PageList → Nat → List Nat) : Prop where
  lists : ∀ l k, k < c.maxOrder →
    Doubly.Linked (fun p => (s.page p).next) (fun p => (s.page p).pre) none (s.list l k) (free l k)
  inside : ∀ d, d ∈ s.live ∨ IsFree free d → d.2 < c.maxOrder ∧ a ≤ d.1 ∧ d.1 + 2 ^ d.2 ≤ b
  once : ∀ x, a ≤ x → x < b → ∃! d, (d ∈ s.live ∨ IsFree free d) ∧ Holds d x
  live_once : s.live.Nodup ∧ ∀ d ∈ s.live, ¬ IsFree free d
  free_once : (∀ l k, (free l k).Nodup) ∧ ∀ l k l' j p, p ∈ free l k → p ∈ free l' j → l' = l ∧ j = k
  aligned : ∀ d, d ∈ s.live ∨ IsFree free d → 2 ^ (d.2 + c.pageShift) ∣ c.pageToAddr d.1
  free_page : ∀ l k, ∀ p ∈ free l k, (s.page p).sizeBits = k ∧ (Z → (s.page p).refCnt = 0)
  live_page : ∀ d ∈ s.live, (s.page d.1).refCnt ≠ 0
  buddies : ∀ k, k < c.maxOrder - 1 → ∀ p, IsFree free (p, k) → ¬ IsFree free (c.buddyGet p k, k)
  alloc_returns : ∀ k flags, k < c.maxOrder → (s.step c (.alloc k flags)).isSome
  refInc_returns : ∀ addr k p, (p, k) ∈ s.live → Holds (p, k) (c.addrToPage addr) → (s.page p).refCnt + 1 ≠ 0 →
    (s.step c (.refInc addr k)).isSome
  free_returns : ∀ p k, (p, k) ∈ s.live → (s.step c (.free (c.pageToAddr p) k)).isSome

variable {c : PageConfig} {s s' : PageState} {a b lo hi st tl : Nat} {x : Ev × Ret} {ls : List (Ev × Ret)} {Z : Prop}
  {free free' : PageList → Nat → List Nat}

section

variable (hr : c.Region a b lo hi) (hv : Inv c a b lo hi Z s free)

include hr hv

/-- Every step keeps the blocks. Those that stay in use keep their links, and only a free that drops the last reference
takes one out of use. -/
theorem Inv.step_links (hs : Step c s x s') : (∃ free', Inv c a b lo hi Z s' free') ∧
    (∀ d ∈ s.live, d ∈ s'.live → (s'.page d.1).next = (s.page d.1).next ∧ (s'.page d.1).pre = (s.page d.1).pre) ∧
    ∀ d ∈ s.live, d ∈ s'.live ∨ x.1 = .free (c.pageToAddr d.1) d.2 ∧ (s.page d.1).refCnt = 1 := by
  obtain ⟨e, ret⟩ := x
  obtain ⟨h, hg⟩ := hs
  cases e with
  | alloc k flags =>
    simp only [PageState.step, rtPagesAllocExt, pagesAlloc] at h hg
    rcases hv.doAlloc hr (fun s l p k _ _ => (rfl : some (s.pageInsert l p k) = _)) hg flags with
      h1 | ⟨s1, q, f, h1, h2, hlive, hpage⟩
    · rw [h1] at h
      cases h
      exact ⟨⟨free, hv⟩, fun _ _ _ => ⟨rfl, rfl⟩, fun _ hd => .inl hd⟩
    · rw [h1] at h
      cases h
      refine ⟨⟨f, h2⟩, ?_, ?_⟩
      · intro d hd _
        rw [hpage d hd]
        exact ⟨rfl, rfl⟩
      · intro d hd
        rw [hlive]
        exact .inl (List.mem_cons_of_mem _ hd)
  | refInc addr k =>
    simp only [PageState.step, rtPageRefInc] at h hg
    obtain ⟨p, hp, hx, hmax⟩ := hg
    obtain ⟨h1, h2⟩ := hv.refInc hr hp hx hmax
    rw [h1] at h
    cases h
    refine ⟨⟨free, h2⟩, ?_, fun _ hd => .inl hd⟩
    intro d _ _
    rw [setRefCnt_page]
    split
    · rename_i he
      rw [he]
      exact ⟨rfl, rfl⟩
    · exact ⟨rfl, rfl⟩
  | free addr k =>
    simp only [PageState.step] at h hg
    obtain ⟨p, hp, rfl⟩ := hg
    obtain ⟨s1, real, f, h1, h2, hreal, hlive, hlinks⟩ := hv.doFree hr hp
    rw [h1] at h
    cases h
    refine ⟨⟨f, h2⟩, hlinks, ?_⟩
    intro d hd
    rw [hlive]
    by_cases hdp : d = (p, k)
    · subst hdp
      cases real with
      | false => exact .inl hd
      | true => exact .inr ⟨rfl, hreal.1 rfl⟩
    · left
      split
      · exact (List.mem_erase_of_ne hdp).2 hd
      · exact hd

theorem Inv.step (hs : Step c s x s') : ∃ free', Inv c a b lo hi Z s' free' :=
  (hv.step_links hr hs).1

theorem Inv.sound : Sound c a b Z s free where
  lists := hv.core.links
  inside := by
    intro d hd
    obtain ⟨h1, -, -, h2⟩ := hv.core.first_mem hd
    have hlast : Holds d (d.1 + (2 ^ d.2 - 1)) := by
      have := Nat.two_pow_pos d.2
      constructor <;> omega
    have h3 := (hv.core.tiled.inside d _ hd hlast).2
    exact ⟨h2, h1, by omega⟩
  once := by
    intro x h1 h2
    obtain ⟨d, hd, hx⟩ := hv.core.tiled.covered x ⟨h1, h2⟩
    refine ⟨d, ⟨hd, hx⟩, ?_⟩
    rintro e ⟨he, hex⟩
    exact hv.core.tiled.apart e d x he hd hex hx
  live_once := ⟨hv.core.busy_nodup, hv.core.busy_free⟩
  free_once := ⟨hv.core.nodup, fun _ _ _ _ _ => hv.core.free_unique⟩
  aligned := by
    intro d hd
    obtain ⟨h1, h2, h3, h4⟩ := hv.core.first_mem hd
    exact hr.aligned d.1 d.2 h1 h2 h4 h3
  free_page := by
    intro l k p hp
    refine ⟨hv.core.free_tag l k p hp, fun hz => ?_⟩
    obtain ⟨h1, h2, -⟩ := hv.core.first_mem (d := (p, k)) (.inr ⟨l, hp⟩)
    apply hv.zero hz p h1 h2
    rintro d hd rfl
    exact hv.core.not_free_of_busy (k := d.2) hd hp
  live_page := hv.live_ref
  buddies := by
    intro k hk p hp
    obtain ⟨h1, h2, h3, -⟩ := hv.core.first_mem (.inr hp)
    rw [hr.buddyGet p k h1 h2 hk h3]
    exact hv.core.reduced p k hk hp
  alloc_returns := by
    intro k flags hk
    simp only [PageState.step, rtPagesAllocExt, pagesAlloc, Option.isSome_map]
    rcases hv.doAlloc hr (fun s l p k _ _ => (rfl : some (s.pageInsert l p k) = _)) hk flags with
      h1 | ⟨s1, q, f, h1, -⟩ <;> rw [h1] <;> rfl
  refInc_returns := by
    intro addr k p hp hx hmax
    simp only [PageState.step, rtPageRefInc, Option.isSome_map]
    rw [(hv.refInc hr hp hx hmax).1]
    rfl
  free_returns := by
    intro p k hp
    obtain ⟨s1, real, f, h1, -⟩ := hv.doFree hr hp
    simp only [PageState.step, Option.isSome_map, h1, Option.isSome_some]

theorem Inv.run (hrun : Runs.Run (Step c) s ls s') : ∃ free', Inv c a b lo hi Z s' free' :=
  hrun.invariant (I := fun s => ∃ free, Inv c a b lo hi Z s free) ⟨free, hv⟩ fun s l s' h hs => by
    obtain ⟨f, hf⟩ := h
    exact hf.step hr hs

end

/-- The page tables for the records come from the lists. -/
theorem Inv.loadTables (hr : c.Region a b lo hi) {n : Nat} (hv : Inv c a b lo hi Z s free)
    (h : s.loadTables c n = some s') : ∃ free', Inv c a b lo hi Z s' free' := by
  induction n generalizing s free with
  | zero =>
    cases h
    exact ⟨free, hv⟩
  | succ n ih =>
    have hins : ∀ s l p k, a ≤ p → p < b → earlyPageInsert c s l p k = some (s.pageInsert l p k) := by
      intro s l p k h1 h2
      rw [earlyPageInsert, if_pos (hr.record p h1 h2)]
    simp only [PageState.loadTables, earlyPagesAlloc] at h
    rcases hv.doAlloc hr hins c.maxOrder_pos 0 with h1 | ⟨s1, q, f, h1, h2, -⟩
    · rw [h1] at h
      cases h
    · rw [h1] at h
      exact ih h2 h

/-- The first frame that is not taken by the records of a region, and the one after its last. -/
def firstFrame (c : PageConfig) (st tl : Nat) : Nat := c.addrToPage (managedStart c st tl)

/-- What is expected of a region. After `rt_page_init`, and after all calls, its pages are in blocks; when callers have
what they had before, or nothing, the free lists are what they were, up to order. -/
def PagesWork (c : PageConfig) (st tl : Nat) : Prop :=
  ∀ s : PageState, ∃ s0 free0, s.install c st tl = some s0 ∧ s0.live = [] ∧
    Sound c (firstFrame c st tl) (c.addrToPage tl) (∀ p, firstFrame c st tl ≤ p → (s.page p).refCnt = 0) s0 free0 ∧
    ∀ tables s1, s.rtPageInit c st tl tables = some s1 → ∃ free1,
      Sound c (firstFrame c st tl) (c.addrToPage tl) (∀ p, firstFrame c st tl ≤ p → (s.page p).refCnt = 0) s1 free1 ∧
      ∀ ls s2, Runs.Run (Step c) s1 ls s2 → ∃ free2,
        Sound c (firstFrame c st tl) (c.addrToPage tl) (∀ p, firstFrame c st tl ≤ p → (s.page p).refCnt = 0) s2 free2 ∧
        (s2.live.Perm s1.live → ∀ l k, (free2 l k).Perm (free1 l k)) ∧
        (s2.live = [] → ∀ l k, (free2 l k).Perm (free0 l k))

theorem RegionOk.region (h : RegionOk c st tl) : c.Region (firstFrame c st tl) (c.addrToPage tl)
    (c.addrToPage (down (managedStart c st tl) c.shadowSize)) (c.addrToPage (c.floor tl c.shadowSize)) := by
  obtain ⟨-, h1, -⟩ := PageConfig.floor_spec (Nat.two_pow_pos _) h.shadow
  have h2 := PageConfig.down_le st c.shadowSize
  exact h.window.region (Nat.le_trans h2 (Nat.le_add_right ..)) h.room h1 h.tail_dvd

/-- What holds of the frames after the records of a region. -/
abbrev RegionInv (c : PageConfig) (st tl : Nat) (s0 s : PageState) : (PageList → Nat → List Nat) → Prop :=
  Inv c (firstFrame c st tl) (c.addrToPage tl) (c.addrToPage (down (managedStart c st tl) c.shadowSize))
    (c.addrToPage (c.floor tl c.shadowSize)) (∀ p, firstFrame c st tl ≤ p → (s0.page p).refCnt = 0) s

/-- `rt_page_init` up to the mapping of the records. -/
theorem RegionOk.installed (h : RegionOk c st tl) (s : PageState) :
    ∃ s0 free0, s.install c st tl = some s0 ∧ s0.live = [] ∧ RegionInv c st tl s s0 free0 := by
  obtain ⟨s0, free0, hinst, hcore, hlive, hzero⟩ := PageState.installed h s
  refine ⟨s0, free0, hinst, hlive, ?_⟩
  constructor
  · rw [hlive]
    exact hcore
  · rw [hlive]
    intro d hd
    cases hd
  · rw [hlive]
    intro d hd
    cases hd
  · intro hz p hp _ _
    exact hzero hz p hp

/-- `rt_page_init`, and the calls after it. -/
theorem RegionOk.inv_of_run (h : RegionOk c st tl) {s s1 s2 : PageState} {tables : Nat}
    (hinit : s.rtPageInit c st tl tables = some s1) (hrun : Runs.Run (Step c) s1 ls s2) :
    ∃ free, RegionInv c st tl s s2 free := by
  obtain ⟨s0, free0, hinst, -, h0⟩ := h.installed s
  rw [rtPageInit, hinst] at hinit
  obtain ⟨free1, h1⟩ := h0.loadTables h.region hinit
  exact h1.run h.region hrun

/-- The pages of a region after its records are in blocks, whatever callers do. -/
theorem buddy_pages (c : PageConfig) (st tl : Nat) (h : RegionOk c st tl) : PagesWork c st tl := by
  intro s
  have hr := h.region
  obtain ⟨s0, free0, hinst, hlive, h0⟩ := h.installed s
  refine ⟨s0, free0, hinst, hlive, h0.sound hr, ?_⟩
  intro tables s1 hinit
  have hload : s0.loadTables c tables = some s1 := by
    rw [rtPageInit, hinst] at hinit
    exact hinit
  obtain ⟨free1, h1⟩ := h0.loadTables hr hload
  refine ⟨free1, h1.sound hr, ?_⟩
  intro ls s2 hrun
  obtain ⟨free2, h2⟩ := h1.run hr hrun
  refine ⟨free2, h2.sound hr, ?_, ?_⟩
  · intro hp
    exact h2.core.restored h1.core hp
  · intro he
    refine h2.core.restored h0.core ?_
    rw [he, hlive]

/-- A 64-bit machine with pages of 4 KiB and blocks of up to 4 MiB. -/
def virt64 : PageConfig where
  addressWidthBits := 64
  pageShift := 12
  maxOrder := 11
  vaddrWidth := 39
  pvOffset := 0
  mprStart := 0x100000000
  recordSize := 32
  maxOrder_pos := by decide
  shadow_lt := by decide
  shadow_le := by decide
  pvOffset_lt := by decide
  pvOffset_dvd := by decide
  recordSize_pos := by decide
  records_fit := by decide

theorem virt64_region : RegionOk virt64 0x80800000 0x84000000 where
  start_dvd := by decide
  tail_dvd := by decide
  lt := by decide
  shadow := by decide
  phys_lt := by decide
  vaddr := by decide
  int := by decide
  room := by decide

theorem buddy_pages_virt64 : PagesWork virt64 0x80800000 0x84000000 := buddy_pages virt64 _ _ virt64_region

/-- The first page of a region is in no block: the records are there. -/
theorem records_in_no_block : ∃ s0, install virt64 ⟨fun _ => ⟨none, none, 0, 0⟩, fun _ _ => none, false, []⟩
      0x80800000 0x84000000 = some s0 ∧ s0.live = [] ∧
    ∀ free : PageList → Nat → List Nat, (∀ l k, k < virt64.maxOrder →
      Doubly.Linked (fun p => (s0.page p).next) (fun p => (s0.page p).pre) none (s0.list l k) (free l k)) →
    ∀ l k, k < virt64.maxOrder → ∀ p ∈ free l k, ¬ Holds (p, k) (virt64.addrToPage 0x80800000) := by
  obtain ⟨s0, free0, hinst, hcore, hlive, -⟩ :=
    installed virt64_region ⟨fun _ => ⟨none, none, 0, 0⟩, fun _ _ => none, false, []⟩
  refine ⟨s0, hinst, hlive, ?_⟩
  intro free hfree l k hk p hp hx
  rw [(hfree l k hk).unique (hcore.links l k hk)] at hp
  have h1 := (hcore.tiled.inside (p, k) _ (.inr ⟨l, hp⟩) hx).1
  revert h1
  decide

end RtThread.PageState
