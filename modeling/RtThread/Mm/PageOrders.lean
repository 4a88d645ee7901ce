import Mathlib.Data.List.Find
import Mathlib.Data.Nat.Bitwise
import RtThread.Mm.Pages

/-!
# Orders beyond the lists

The order of an allocation comes from the caller, often from a length (`rt_page_bits`). The entries of `page_list` that
`_pages_alloc` looks at are written out here (`levelsRead`); for the orders that the lists have they are in the lists, and
the level found is that of `pagesAllocBy` (`takeLevel_eq`). An allocation is safe exactly for these orders
(`pages_alloc_safe_iff`).
-/

namespace RtThread

namespace PageConfig

variable (c : PageConfig)

/-- `__builtin_clzl`, which zero has no value of. -/
def clz (n : Nat) : Option Nat := if n = 0 then none else some (c.addressWidthBits - 1 - Nat.log2 n)

/-- `rt_page_bits`. -/
def rtPageBits (size : Nat) : Option Nat :=
  match c.clz size with
  | none => none
  | some clz =>
    let bit := c.addressWidthBits - clz - 1
    let bit := if size ^^^ 1 <<< bit ≠ 0 then bit + 1 else bit
    some (bit - c.pageShift)

end PageConfig

namespace PageState

open Buddy (Holds)

/-- `for (level = size_bits + 1; level < RT_PAGE_MAX_ORDER; level++)`, with `n` levels to go: the entries looked at, and the
level at the end. -/
def levelLoop (entry : Nat → Bool) (level : Nat) : Nat → List Nat × Nat
  | 0 => ([], level)
  | n + 1 =>
    if entry level then ([level], level)
    else
      let (read, last) := levelLoop entry (level + 1) n
      (level :: read, last)

/-- The choice of `_pages_alloc`: the entries of the list that it reads, and the level that it takes a page from. -/
def takeLevel (c : PageConfig) (entry : Nat → Bool) (sizeBits : Nat) : List Nat × Option Nat :=
  if entry sizeBits then ([sizeBits], some sizeBits)
  else
    let level := (sizeBits + 1) % 2 ^ 32
    let (read, last) := levelLoop entry level (c.maxOrder - level)
    if last = c.maxOrder then (sizeBits :: read, none) else (sizeBits :: (read ++ [last]), some last)

/-- `page_list[i]`; `beyond` is the memory after the list. -/
def entryAt (c : PageConfig) (s : PageState) (l : PageList) (beyond : Nat → Bool) (i : Nat) : Bool :=
  if i < c.maxOrder then (s.list l i).isSome else beyond i

def levelsRead (c : PageConfig) (s : PageState) (l : PageList) (beyond : Nat → Bool) (sizeBits : Nat) : List Nat :=
  (takeLevel c (s.entryAt c l beyond) sizeBits).1

/-- What is expected of `rt_pages_alloc_ext` in a region of the frames `[a, b)`: only entries of the lists are read; it
fails and changes nothing, or gives `2 ^ size_bits` frames that no one had. -/
structure AllocSafe (c : PageConfig) (a b : Nat) (s : PageState) (sizeBits flags : Nat) : Prop where
  read : ∀ l beyond, ∀ i ∈ s.levelsRead c l beyond sizeBits, i < c.maxOrder
  result : s.rtPagesAllocExt c sizeBits flags = some (s, none) ∨
    ∃ s' p, s.rtPagesAllocExt c sizeBits flags = some (s', some (c.pageToAddr p)) ∧ s'.live = (p, sizeBits) :: s.live ∧
      ∀ x, p ≤ x → x < p + 2 ^ sizeBits → a ≤ x ∧ x < b ∧ ∀ d ∈ s.live, ¬ Holds d x

variable {c : PageConfig} {s s' s1 s2 : PageState} {a b lo hi st tl k size n : Nat} {Z : Prop}
  {free : PageList → Nat → List Nat} {ls : List (Ev × Ret)}

/-! ## The level -/

/-- The loop looks at the levels in order, up to the first with a page. -/
theorem levelLoop_spec (entry : Nat → Bool) (level n : Nat) :
    (∀ i ∈ (levelLoop entry level n).1, i < level + n) ∧
    ((levelLoop entry level n).2 = level + n ∧ (List.range' level n).find? entry = none ∨
      (levelLoop entry level n).2 < level + n ∧
        (List.range' level n).find? entry = some (levelLoop entry level n).2) := by
  induction n generalizing level with
  | zero => exact ⟨nofun, .inl ⟨rfl, rfl⟩⟩
  | succ n ih =>
    obtain ⟨hread, hlast⟩ := ih (level + 1)
    simp only [levelLoop, List.range'_succ, List.find?_cons]
    cases hentry : entry level with
    | true =>
      refine ⟨?_, .inr ⟨by simp, rfl⟩⟩
      intro i hi
      have := List.mem_singleton.1 hi
      omega
    | false =>
      refine ⟨?_, ?_⟩
      · intro i hi
        rcases List.mem_cons.1 hi with rfl | hi
        · omega
        · have := hread i hi
          omega
      · rcases hlast with ⟨h1, h2⟩ | ⟨h1, h2⟩
        · exact .inl ⟨h1.trans (by omega), h2⟩
        · exact .inr ⟨Nat.lt_of_lt_of_eq h1 (by omega), h2⟩

theorem maxOrder_lt (c : PageConfig) : c.maxOrder < 2 ^ 32 := by
  have := c.shadow_le
  omega

/-- An order that the lists have leads to entries of the lists only. -/
theorem takeLevel_read (hk : k < c.maxOrder) (entry : Nat → Bool) : ∀ i ∈ (takeLevel c entry k).1, i < c.maxOrder := by
  have hmax := maxOrder_lt c
  have hmod : (k + 1) % 2 ^ 32 = k + 1 := Nat.mod_eq_of_lt (by omega)
  have hsum : k + 1 + (c.maxOrder - (k + 1)) = c.maxOrder := by omega
  obtain ⟨hread, hlast⟩ := levelLoop_spec entry (k + 1) (c.maxOrder - (k + 1))
  rw [hsum] at hread hlast
  intro i hi
  simp only [takeLevel, hmod] at hi
  split at hi
  · rw [List.mem_singleton.1 hi]
    exact hk
  · split at hi
    · rcases List.mem_cons.1 hi with rfl | hi
      · exact hk
      · exact hread i hi
    · rename_i hne
      rcases List.mem_cons.1 hi with rfl | hi
      · exact hk
      · rcases List.mem_append.1 hi with hi | hi
        · exact hread i hi
        · rw [List.mem_singleton.1 hi]
          rcases hlast with ⟨h1, -⟩ | ⟨h1, -⟩
          · exact absurd h1 hne
          · exact h1

/-- The level that a page is taken from is that of `pagesAllocBy`. -/
theorem takeLevel_eq (hk : k < c.maxOrder) (l : PageList) (beyond : Nat → Bool) :
    (takeLevel c (s.entryAt c l beyond) k).2 = s.findLevel c l k := by
  have hmax := maxOrder_lt c
  have hsum : k + 1 + (c.maxOrder - (k + 1)) = c.maxOrder := by omega
  have hentry : s.findLevel c l k = (List.range' k (c.maxOrder - k)).find? (s.entryAt c l beyond) := by
    refine List.find?_congr fun i hi => ?_
    rw [List.mem_range'_1] at hi
    rw [entryAt, if_pos (by omega)]
  obtain ⟨-, hlast⟩ := levelLoop_spec (s.entryAt c l beyond) (k + 1) (c.maxOrder - (k + 1))
  rw [hsum] at hlast
  rw [hentry, show c.maxOrder - k = c.maxOrder - (k + 1) + 1 by omega, List.range'_succ, List.find?_cons, takeLevel,
    Nat.mod_eq_of_lt (show k + 1 < 2 ^ 32 by omega)]
  cases s.entryAt c l beyond k with
  | true => rfl
  | false =>
    rcases hlast with ⟨heq, hnone⟩ | ⟨hlt, hsome⟩
    · simp [heq, hnone]
    · simp [Nat.ne_of_lt hlt, hsome]

/-- The order itself is read first. -/
theorem mem_takeLevel (c : PageConfig) (entry : Nat → Bool) (k : Nat) : k ∈ (takeLevel c entry k).1 := by
  simp only [takeLevel]
  split
  · exact List.mem_singleton_self k
  · split <;> exact List.mem_cons_self

/-! ## The order of a size -/

/-- `rt_page_bits` is the order of the smallest block that has room for the size. -/
theorem rtPageBits_le_iff (hsize : size < 2 ^ c.addressWidthBits) (hk : c.rtPageBits size = some k) :
    k ≤ n ↔ size ≤ 2 ^ (n + c.pageShift) := by
  obtain ⟨hne, rfl⟩ : size ≠ 0 ∧ (if size = 2 ^ Nat.log2 size then Nat.log2 size else Nat.log2 size + 1) - c.pageShift = k := by
    simp only [PageConfig.rtPageBits, PageConfig.clz] at hk
    split at hk
    · cases hk
    · rename_i z hz
      obtain ⟨hne, hz⟩ := Option.ite_none_left_eq_some.1 hz
      have hlog : Nat.log2 size < c.addressWidthBits := (Nat.log2_lt hne).2 hsize
      cases hz
      have hbit : c.addressWidthBits - (c.addressWidthBits - 1 - Nat.log2 size) - 1 = Nat.log2 size := by omega
      simp only [hbit, Nat.one_shiftLeft, ne_eq, Nat.xor_eq_zero_iff, ite_not] at hk
      exact ⟨hne, Option.some.inj hk⟩
  split
  · rename_i hpow
    have hiff : 2 ^ Nat.log2 size ≤ 2 ^ (n + c.pageShift) ↔ Nat.log2 size ≤ n + c.pageShift :=
      Nat.pow_le_pow_iff_right (by decide)
    omega
  · rename_i hpow
    -- a size that is no power of two is below a larger power exactly when its highest bit is
    have hiff : Nat.log2 size < n + c.pageShift ↔ size < 2 ^ (n + c.pageShift) := Nat.log2_lt hne
    have hne' : size ≠ 2 ^ (n + c.pageShift) := by
      intro he
      rw [he, Nat.log2_two_pow] at hpow
      exact hpow rfl
    omega

/-! ## Every order -/

/-- Frames that are handed out are frames of the region that no one had. -/
theorem Inv.handed {q : Nat} {free' : PageList → Nat → List Nat} (hv : Inv c a b lo hi Z s' free')
    (hlive : s'.live = (q, k) :: s.live) : ∀ x, q ≤ x → x < q + 2 ^ k → a ≤ x ∧ x < b ∧ ∀ d ∈ s.live, ¬ Holds d x := by
  intro x h1 h2
  have hcore := hv.core
  rw [hlive] at hcore
  have hin := hcore.tiled.inside (q, k) x (.inl List.mem_cons_self) ⟨h1, h2⟩
  refine ⟨hin.1, hin.2, ?_⟩
  intro d hd hx
  have heq := hcore.tiled.apart d (q, k) x (.inl (List.mem_cons_of_mem _ hd)) (.inl List.mem_cons_self) hx ⟨h1, h2⟩
  exact (List.nodup_cons.1 hcore.busy_nodup).1 (heq ▸ hd)

theorem Inv.allocSafe_iff (hr : c.Region a b lo hi) (hv : Inv c a b lo hi Z s free) (flags : Nat) :
    AllocSafe c a b s k flags ↔ k < c.maxOrder := by
  constructor
  · intro h
    exact h.read .low (fun _ => false) k (mem_takeLevel c _ k)
  · intro hk
    constructor
    · intro l beyond i hi
      exact takeLevel_read hk _ i hi
    · rcases hv.doAlloc hr (fun s l p k _ _ => (rfl : some (s.pageInsert l p k) = _)) hk flags with
        h1 | ⟨s1, q, f, h1, h2, h3, -⟩
      · exact .inl h1
      · exact .inr ⟨s1, q, h1, h3, h2.handed h3⟩

/-- **An allocation is safe exactly for the orders that the lists have**, so for a size of at most a largest block. -/
theorem pages_alloc_safe_iff (h : RegionOk c st tl) {tables : Nat} (hinit : s.rtPageInit c st tl tables = some s1)
    (hrun : Runs.Run (Step c) s1 ls s2) (flags : Nat) :
    (∀ sizeBits, AllocSafe c (firstFrame c st tl) (c.addrToPage tl) s2 sizeBits flags ↔ sizeBits < c.maxOrder) ∧
    (∀ size sizeBits, size < 2 ^ c.addressWidthBits → c.rtPageBits size = some sizeBits →
      (AllocSafe c (firstFrame c st tl) (c.addrToPage tl) s2 sizeBits flags ↔ size ≤ c.shadowSize)) := by
  obtain ⟨free, hv⟩ := h.inv_of_run hinit hrun
  refine ⟨fun sizeBits => hv.allocSafe_iff h.region flags, ?_⟩
  intro size sizeBits hsize hbits
  have hpos := c.maxOrder_pos
  rw [hv.allocSafe_iff h.region flags, PageConfig.shadowSize, ← rtPageBits_le_iff hsize hbits]
  omega

/-- The lists are set up, and three pages are asked for. -/
theorem pages_alloc_safe_iff_virt64 : ∃ s1, rtPageInit virt64 ⟨fun _ => ⟨none, none, 0, 0⟩, fun _ _ => none, false, []⟩
      0x80800000 0x84000000 0 = some s1 ∧
    (AllocSafe virt64 (firstFrame virt64 0x80800000 0x84000000) (virt64.addrToPage 0x84000000) s1 2 0 ↔
      0x3000 ≤ virt64.shadowSize) := by
  obtain ⟨s1, -, hinst, -⟩ :=
    virt64_region.installed ⟨fun _ => ⟨none, none, 0, 0⟩, fun _ _ => none, false, []⟩
  have hinit : rtPageInit virt64 ⟨fun _ => ⟨none, none, 0, 0⟩, fun _ _ => none, false, []⟩
      0x80800000 0x84000000 0 = some s1 := by
    rw [rtPageInit, hinst]
    rfl
  exact ⟨s1, hinit, (pages_alloc_safe_iff virt64_region hinit .nil 0).2 0x3000 2 (by decide) (by decide)⟩

/-- The order of a shared memory of 8 MiB is one that the lists do not have. -/
theorem pages_alloc_beyond : ∃ s1, rtPageInit virt64 ⟨fun _ => ⟨none, none, 0, 0⟩, fun _ _ => none, false, []⟩
      0x80800000 0x84000000 0 = some s1 ∧ virt64.rtPageBits 0x800000 = some 11 ∧
    11 ∈ s1.levelsRead virt64 .low (fun _ => false) 11 ∧ ¬ 11 < virt64.maxOrder ∧
    ¬ AllocSafe virt64 (firstFrame virt64 0x80800000 0x84000000) (virt64.addrToPage 0x84000000) s1 11 0 := by
  obtain ⟨s1, -, hinst, -⟩ :=
    virt64_region.installed ⟨fun _ => ⟨none, none, 0, 0⟩, fun _ _ => none, false, []⟩
  have hmem := mem_takeLevel virt64 (s1.entryAt virt64 .low fun _ => false) 11
  refine ⟨s1, ?_, by decide, hmem, by decide, ?_⟩
  · rw [rtPageInit, hinst]
    rfl
  · intro hsafe
    have hlt := hsafe.read .low (fun _ => false) 11 hmem
    revert hlt
    decide

end PageState

end RtThread
