import RtThread.Mm.Pages

/-!
# Installing a region

`_install_page` with either way of inserting a block, for any region and any lists: `_early_page_insert` is the case of
`rt_page_init` (`installPageBy_early`), `_page_insert` that of `rt_page_install`. The region is cut into aligned blocks
(`Cuts`), and of the other pages only the first of a list is written to, apart from the tags of the shadow (`Apart`).
-/

namespace RtThread.PageState

open PageConfig (down)

variable (c : PageConfig)

/-- `insert_handler`. -/
inductive InsertHandler
  | early
  | late
deriving DecidableEq, Repr

/-- `_early_page_insert` and `_page_insert`. -/
def InsertHandler.insert : InsertHandler → Insert
  | .early => earlyPageInsert c
  | .late => fun s l p sizeBits => some (s.pageInsert l p sizeBits)

/-- `/* mark shadow pages as illegal */` -/
def markShadow (s : PageState) (start tail : Nat) : PageState :=
  let shadowStart := down start c.shadowSize
  let shadowEnd := c.floor tail c.shadowSize
  let s := { s with highPageConfigured := s.highPageConfigured || decide (4294967295 < c.v2p shadowEnd) }
  let s := s.mark c (c.addrToPage shadowStart) (c.addrToPage start)
  s.mark c (c.addrToPage tail) (c.addrToPage shadowEnd)

/-- `while (region.start != region.end)`. -/
def insertLoopBy (insert : Insert) (s : PageState) (start tail : Nat) : Nat → Option PageState
  | 0 => if start = tail then some s else none
  | n + 1 =>
    if start = tail then some s
    else
      let sizeBits := blockBits c start tail
      let p := c.addrToPage start
      let s := (s.setSizeBits p c.addressWidthBits).setRefCnt p 0
      match insert s (c.getPageList start) p (sizeBits - c.pageShift) with
      | none => none
      | some s => insertLoopBy insert s ((start + 1 <<< sizeBits) % 2 ^ c.addressWidthBits) tail n

/-- `_install_page`. -/
def installPageBy (insert : Insert) (s : PageState) (start tail : Nat) : Option PageState :=
  insertLoopBy c insert (s.markShadow c start tail) start tail (2 ^ (c.addressWidthBits - c.pageShift))

variable {c : PageConfig} {s s' : PageState} {cur start tail a x n : Nat} {d : Nat × Nat} {blocks : List (Nat × Nat)}

theorem insertLoopBy_early : insertLoopBy c (earlyPageInsert c) s start tail n = s.insertLoop c start tail n := by
  induction n generalizing s start with
  | zero => rfl
  | succ n ih =>
    by_cases hend : start = tail
    · rw [insertLoopBy, insertLoop, if_pos hend, if_pos hend]
    · rw [insertLoop_succ hend, insertLoopBy, if_neg hend]
      dsimp only [blockBits]
      generalize earlyPageInsert c _ _ _ _ = r
      cases r with
      | none => rfl
      | some s => apply ih

/-- The region that `rt_page_init` sets up. -/
theorem installPageBy_early (s : PageState) (start tail : Nat) :
    s.installPageBy c (InsertHandler.early.insert c) start tail = s.installPage c start tail :=
  insertLoopBy_early

/-! ## What is expected -/

/-- An address is in a block, of an address and an order. -/
def InBlock (c : PageConfig) (d : Nat × Nat) (x : Nat) : Prop := d.1 ≤ x ∧ x < d.1 + 2 ^ (d.2 + c.pageShift)

/-- A region is cut into blocks: of orders that the lists have, aligned, apart from each other, and covering it. -/
structure Cuts (c : PageConfig) (start tail : Nat) (blocks : List (Nat × Nat)) : Prop where
  order : ∀ d ∈ blocks, d.2 < c.maxOrder
  aligned : ∀ d ∈ blocks, 2 ^ (d.2 + c.pageShift) ∣ d.1 ∧ 2 ^ d.2 ∣ c.addrToPage d.1
  apart : blocks.Pairwise fun d e => ∀ x, ¬ (InBlock c d x ∧ InBlock c e x)
  cover : ∀ x, (∃ d ∈ blocks, InBlock c d x) ↔ start ≤ x ∧ x < tail

/-- The body of the loop. -/
def insertBlock (c : PageConfig) (s : PageState) (d : Nat × Nat) : PageState :=
  let p := c.addrToPage d.1
  ((s.setSizeBits p c.addressWidthBits).setRefCnt p 0).pageInsert (c.getPageList d.1) p d.2

/-- A page of the shadow of a region, around it. -/
def InShadow (c : PageConfig) (start tail p : Nat) : Prop :=
  c.addrToPage (down start c.shadowSize) ≤ p ∧ p < c.addrToPage start ∨
    c.addrToPage tail ≤ p ∧ p < c.addrToPage (c.floor tail c.shadowSize)

/-- The pages of other addresses. The first page of a list gets a page before it; no other link is changed. -/
structure Apart (c : PageConfig) (start tail : Nat) (s s' : PageState) (blocks : List (Nat × Nat)) : Prop where
  next : ∀ x, x < 2 ^ c.addressWidthBits → ¬ (start ≤ x ∧ x < tail) →
    (s'.page (c.addrToPage x)).next = (s.page (c.addrToPage x)).next
  pre : ∀ x, x < 2 ^ c.addressWidthBits → ¬ (start ≤ x ∧ x < tail) →
    (s'.page (c.addrToPage x)).pre = (s.page (c.addrToPage x)).pre ∨
      ∃ d ∈ blocks, s.list (c.getPageList d.1) d.2 = some (c.addrToPage x) ∧
        (s'.page (c.addrToPage x)).pre = some (c.addrToPage d.1)
  refCnt : ∀ x, x < 2 ^ c.addressWidthBits → ¬ (start ≤ x ∧ x < tail) →
    (s'.page (c.addrToPage x)).refCnt = (s.page (c.addrToPage x)).refCnt
  sizeBits : ∀ x, x < 2 ^ c.addressWidthBits → ¬ (start ≤ x ∧ x < tail) → ¬ InShadow c start tail (c.addrToPage x) →
    (s'.page (c.addrToPage x)).sizeBits = (s.page (c.addrToPage x)).sizeBits

/-- The loop ends; it has put the blocks of the region on the lists, one after the other. -/
def Installs (c : PageConfig) (handler : InsertHandler) (start tail : Nat) (s : PageState) : Prop :=
  ∃ blocks s', s.installPageBy c (handler.insert c) start tail = some s' ∧
    s' = blocks.foldl (insertBlock c) (s.markShadow c start tail) ∧ Cuts c start tail blocks ∧
    Apart c start tail s s' blocks

/-! ## The blocks -/

/-- An aligned block is aligned in physical memory too. -/
theorem frame_dvd {k : Nat} (hk : k ≤ c.maxOrder - 1) (h : 2 ^ (k + c.pageShift) ∣ a) : 2 ^ k ∣ c.addrToPage a := by
  have hshadow : 2 ^ (k + c.pageShift) ∣ 2 ^ (c.maxOrder - 1 + c.pageShift) := Nat.pow_dvd_pow 2 (by omega)
  have hdvd : 2 ^ (k + c.pageShift) ∣ c.v2p a := by
    rw [PageConfig.v2p, Nat.dvd_mod_iff (Nat.pow_dvd_pow 2 (by have := c.shadow_lt; omega))]
    exact Nat.dvd_add h (Nat.dvd_trans hshadow c.pvOffset_dvd)
  rw [PageConfig.addrToPage, Nat.shiftRight_eq_div_pow]
  obtain ⟨m, hm⟩ := hdvd
  rw [hm, Nat.pow_add, Nat.mul_right_comm, Nat.mul_div_cancel _ (Nat.two_pow_pos _)]
  exact Nat.dvd_mul_right ..

theorem Cuts.nil (c : PageConfig) (a : Nat) : Cuts c a a [] where
  order := nofun
  aligned := nofun
  apart := .nil
  cover x := by
    simp only [List.not_mem_nil, false_and, exists_const, false_iff]
    omega

/-- A block before the others. -/
theorem Cuts.cons {k : Nat} (h : Cuts c (cur + 2 ^ (k + c.pageShift)) tail blocks) (hk : k ≤ c.maxOrder - 1)
    (hdvd : 2 ^ (k + c.pageShift) ∣ cur) (hfit : cur + 2 ^ (k + c.pageShift) ≤ tail) : Cuts c cur tail ((cur, k) :: blocks) where
  order := by
    have := c.maxOrder_pos
    rintro d (_ | ⟨_, hd⟩)
    · show k < c.maxOrder
      omega
    · exact h.order d hd
  aligned := by
    rintro d (_ | ⟨_, hd⟩)
    · exact ⟨hdvd, frame_dvd hk hdvd⟩
    · exact h.aligned d hd
  apart := by
    refine .cons ?_ h.apart
    rintro d hd x ⟨h1, h2⟩
    have h3 := ((h.cover x).1 ⟨d, hd, h2⟩).1
    have h4 := h1.2
    simp only at h4
    omega
  cover x := by
    constructor
    · rintro ⟨d, hd, hx⟩
      rcases List.mem_cons.1 hd with rfl | hd
      · simp only [InBlock] at hx
        omega
      · have := (h.cover x).1 ⟨d, hd, hx⟩
        omega
    · intro hx
      by_cases hin : x < cur + 2 ^ (k + c.pageShift)
      · exact ⟨(cur, k), List.mem_cons_self, hx.1, hin⟩
      · obtain ⟨d, hd, hx⟩ := (h.cover x).2 ⟨by omega, hx.2⟩
        exact ⟨d, List.mem_cons_of_mem _ hd, hx⟩

/-- What is left of the region is cut. -/
theorem insertLoopBy_cuts {insert : Insert} (htail : 2 ^ c.pageShift ∣ tail) (hlt : tail < 2 ^ c.addressWidthBits)
    (hins : ∀ s l x k, start ≤ x → x < tail →
      insert s l (c.addrToPage x) k = some (s.pageInsert l (c.addrToPage x) k))
    (hstart : start ≤ cur) (hle : cur ≤ tail) (hcur : 2 ^ c.pageShift ∣ cur) (hn : tail - cur ≤ n * 2 ^ c.pageShift) :
    ∃ blocks, insertLoopBy c insert s cur tail n = some (blocks.foldl (insertBlock c) s) ∧ Cuts c cur tail blocks := by
  induction n generalizing s cur with
  | zero =>
    obtain rfl : cur = tail := by omega
    refine ⟨[], ?_, Cuts.nil c cur⟩
    rw [insertLoopBy, if_pos rfl]
    rfl
  | succ n ih =>
    by_cases hend : cur = tail
    · subst hend
      refine ⟨[], ?_, Cuts.nil c cur⟩
      rw [insertLoopBy, if_pos rfl]
      rfl
    · obtain ⟨k, hk, hktop, hdvd, hfit, -⟩ := blockBits_fits (by omega) hlt hcur htail
      have hstep : 2 ^ c.pageShift ≤ 2 ^ (k + c.pageShift) := Nat.pow_le_pow_right (by decide) (Nat.le_add_left ..)
      have hnext : (cur + 1 <<< blockBits c cur tail) % 2 ^ c.addressWidthBits = cur + 2 ^ (k + c.pageShift) := by
        rw [hk, Nat.shiftLeft_eq, Nat.one_mul, Nat.mod_eq_of_lt (by omega)]
      have hrest : tail - (cur + 2 ^ (k + c.pageShift)) ≤ n * 2 ^ c.pageShift := by
        rw [Nat.add_mul, Nat.one_mul] at hn
        omega
      obtain ⟨blocks, hloop, hcuts⟩ := ih (s := s.insertBlock c (cur, k)) (by omega) hfit
        (Nat.dvd_add hcur (Nat.pow_dvd_pow 2 (Nat.le_add_left ..))) hrest
      refine ⟨(cur, k) :: blocks, ?_, hcuts.cons hktop hdvd hfit⟩
      rw [insertLoopBy, if_neg hend]
      simp only [hins _ _ cur _ hstart (by omega), hnext]
      rw [hk, Nat.add_sub_cancel]
      exact hloop

/-! ## The other pages -/

/-- The first page of a block is that of no other address. -/
theorem addrToPage_ne (hd : 2 ^ c.pageShift ∣ a) (hx : x < 2 ^ c.addressWidthBits)
    (ha : a + 2 ^ c.pageShift ≤ 2 ^ c.addressWidthBits) (hne : ¬ (a ≤ x ∧ x < a + 2 ^ c.pageShift)) :
    c.addrToPage x ≠ c.addrToPage a := by
  intro he
  have hS := Nat.two_pow_pos c.pageShift
  have hpv := c.pvOffset_lt
  have hwidth : 2 ^ c.pageShift ∣ 2 ^ c.addressWidthBits := Nat.pow_dvd_pow 2 (by have := c.shadow_lt; omega)
  have hdvd : 2 ^ c.pageShift ∣ c.v2p a := by
    rw [PageConfig.v2p, Nat.dvd_mod_iff hwidth]
    exact Nat.dvd_add hd (Nat.dvd_trans (Nat.pow_dvd_pow 2 (Nat.le_add_left ..)) c.pvOffset_dvd)
  have hmod : ∀ y, y < 2 ^ c.addressWidthBits →
      c.v2p y = y + c.pvOffset ∨ 2 ^ c.addressWidthBits + c.v2p y = y + c.pvOffset := by
    intro y hy
    rw [PageConfig.v2p]
    by_cases hwrap : y + c.pvOffset < 2 ^ c.addressWidthBits
    · exact .inl (Nat.mod_eq_of_lt hwrap)
    · right
      rw [Nat.mod_eq_sub_mod (by omega), Nat.mod_eq_of_lt (by omega)]
      omega
  rw [PageConfig.addrToPage, PageConfig.addrToPage, Nat.shiftRight_eq_div_pow, Nat.shiftRight_eq_div_pow] at he
  have h1 := Nat.div_mul_cancel hdvd
  have h2 := Nat.div_add_mod' (c.v2p x) (2 ^ c.pageShift)
  rw [he, h1] at h2
  have h4 := hmod x hx
  have h5 := hmod a (by omega)
  omega

/-- A page in which no block starts: only what is before it may change. -/
theorem insertBlock_page (s : PageState) {p : Nat} (hp : p ≠ c.addrToPage d.1) : (s.insertBlock c d).page p =
    { s.page p with
      pre := if s.list (c.getPageList d.1) d.2 = some p then some (c.addrToPage d.1) else (s.page p).pre } := by
  rw [insertBlock, pageInsert_page, if_neg hp, setRefCnt_list, setSizeBits_list, setRefCnt_page, if_neg hp,
    setSizeBits_page, if_neg hp]

theorem insertBlock_list (s : PageState) (d : Nat × Nat) (l : PageList) (k : Nat) : (s.insertBlock c d).list l k =
    if l = c.getPageList d.1 ∧ k = d.2 then some (c.addrToPage d.1) else s.list l k := by
  rw [insertBlock, pageInsert_list, setRefCnt_list, setSizeBits_list]

theorem foldl_insertBlock_page {p : Nat} (s : PageState) (hp : ∀ d ∈ blocks, p ≠ c.addrToPage d.1) :
    ((blocks.foldl (insertBlock c) s).page p).next = (s.page p).next ∧
    ((blocks.foldl (insertBlock c) s).page p).refCnt = (s.page p).refCnt ∧
    ((blocks.foldl (insertBlock c) s).page p).sizeBits = (s.page p).sizeBits ∧
    (((blocks.foldl (insertBlock c) s).page p).pre = (s.page p).pre ∨
      ∃ d ∈ blocks, s.list (c.getPageList d.1) d.2 = some p ∧
        ((blocks.foldl (insertBlock c) s).page p).pre = some (c.addrToPage d.1)) := by
  induction blocks generalizing s with
  | nil => exact ⟨rfl, rfl, rfl, .inl rfl⟩
  | cons d blocks ih =>
    have hpd := hp d List.mem_cons_self
    have hpage := insertBlock_page s hpd
    obtain ⟨h1, h2, h3, h4⟩ := ih (s.insertBlock c d) fun e he => hp e (List.mem_cons_of_mem _ he)
    rw [hpage] at h1 h2 h3 h4
    refine ⟨h1, h2, h3, ?_⟩
    rcases h4 with h4 | ⟨e, he, hhead, h4⟩
    · by_cases hhead : s.list (c.getPageList d.1) d.2 = some p
      · rw [if_pos hhead] at h4
        exact .inr ⟨d, List.mem_cons_self, hhead, h4⟩
      · rw [if_neg hhead] at h4
        exact .inl h4
    · rw [insertBlock_list] at hhead
      split at hhead
      · exact absurd (Option.some.inj hhead).symm hpd
      · exact .inr ⟨e, List.mem_cons_of_mem _ he, hhead, h4⟩

theorem mark_page (s : PageState) (a b p : Nat) : (s.mark c a b).page p =
    if a ≤ p ∧ p < b then { s.page p with sizeBits := c.addressWidthBits } else s.page p := rfl

/-- Marking sets tags. -/
theorem markShadow_page (s : PageState) (start tail p : Nat) :
    ((s.markShadow c start tail).page p).next = (s.page p).next ∧
    ((s.markShadow c start tail).page p).pre = (s.page p).pre ∧
    ((s.markShadow c start tail).page p).refCnt = (s.page p).refCnt ∧
    (¬ InShadow c start tail p → ((s.markShadow c start tail).page p).sizeBits = (s.page p).sizeBits) := by
  simp only [markShadow, mark_page, InShadow, not_or]
  split_ifs <;> simp_all

/-- **A region is cut into aligned blocks that cover it, and the records of other pages stay as they are**, but for what
is before the first page of a list and the tags of the shadow. -/
theorem install_region (handler : InsertHandler) (s : PageState) (hstart : 2 ^ c.pageShift ∣ start)
    (htail : 2 ^ c.pageShift ∣ tail) (hle : start ≤ tail) (hlt : tail < 2 ^ c.addressWidthBits)
    (hrec : handler = .early → ∀ x, start ≤ x → x < tail → c.addrToPage x * c.recordSize < c.rtMprSize) :
    Installs c handler start tail s := by
  have hins : ∀ s l x k, start ≤ x → x < tail →
      handler.insert c s l (c.addrToPage x) k = some (s.pageInsert l (c.addrToPage x) k) := by
    intro s l x k h1 h2
    cases handler with
    | early => rw [InsertHandler.insert, earlyPageInsert, if_pos (hrec rfl x h1 h2)]
    | late => rfl
  have hfuel : tail - start ≤ 2 ^ (c.addressWidthBits - c.pageShift) * 2 ^ c.pageShift := by
    have := c.shadow_lt
    rw [← Nat.pow_add, Nat.sub_add_cancel (by omega)]
    omega
  obtain ⟨blocks, hloop, hcuts⟩ :=
    insertLoopBy_cuts (s := s.markShadow c start tail) htail hlt hins (Nat.le_refl start) hle hstart hfuel
  refine ⟨blocks, _, hloop, rfl, hcuts, ?_⟩
  have hother : ∀ x, x < 2 ^ c.addressWidthBits → ¬ (start ≤ x ∧ x < tail) → ∀ d ∈ blocks,
      c.addrToPage x ≠ c.addrToPage d.1 := by
    intro x hx hout d hd
    have hdvd := Nat.dvd_trans (Nat.pow_dvd_pow 2 (Nat.le_add_left ..)) (hcuts.aligned d hd).1
    have hpow : 2 ^ c.pageShift ≤ 2 ^ (d.2 + c.pageShift) := Nat.pow_le_pow_right (by decide) (Nat.le_add_left ..)
    have hlast := (hcuts.cover (d.1 + 2 ^ (d.2 + c.pageShift) - 1)).1 ⟨d, hd, by omega, by omega⟩
    have hfirst := (hcuts.cover d.1).1 ⟨d, hd, Nat.le_refl _, by omega⟩
    exact addrToPage_ne hdvd hx (by omega) (by omega)
  constructor
  · intro x hx hout
    obtain ⟨h1, -⟩ := foldl_insertBlock_page (s.markShadow c start tail) (hother x hx hout)
    rw [h1, (markShadow_page s start tail _).1]
  · intro x hx hout
    obtain ⟨-, -, -, h1⟩ := foldl_insertBlock_page (s.markShadow c start tail) (hother x hx hout)
    rw [(markShadow_page s start tail _).2.1] at h1
    exact h1
  · intro x hx hout
    obtain ⟨-, h1, -⟩ := foldl_insertBlock_page (s.markShadow c start tail) (hother x hx hout)
    rw [h1, (markShadow_page s start tail _).2.2.1]
  · intro x hx hout hshadow
    obtain ⟨-, -, h1, -⟩ := foldl_insertBlock_page (s.markShadow c start tail) (hother x hx hout)
    rw [h1, (markShadow_page s start tail _).2.2.2 hshadow]

/-- The records of the pages that `rt_page_init` puts on the lists are in the record area. -/
theorem RegionOk.records {st tl : Nat} (h : RegionOk c st tl) (h1 : managedStart c st tl ≤ x) (h2 : x < tl) :
    c.addrToPage x * c.recordSize < c.rtMprSize := by
  have hw := h.window
  have hdown := PageConfig.down_le st c.shadowSize
  have hstart : down st c.shadowSize ≤ managedStart c st tl := Nat.le_trans hdown (Nat.le_add_right ..)
  obtain ⟨-, hfloor, -⟩ := PageConfig.floor_spec (Nat.two_pow_pos _) h.shadow
  apply h.region.record _ (hw.addrToPage_mono hstart h1 (Nat.le_trans (Nat.le_of_lt h2) hfloor))
  have hmul := hw.addrToPage_mul (x := tl) (by omega) hfloor h.tail_dvd
  rw [hw.addrToPage_eq (by omega) (Nat.le_trans (Nat.le_of_lt h2) hfloor), Nat.div_lt_iff_lt_mul (Nat.two_pow_pos _), hmul]
  omega

/-- The region that is set up first, and a second one of 4 MiB. -/
theorem install_region_virt64 :
    Installs virt64 .early (managedStart virt64 0x80800000 0x84000000) 0x84000000
      ⟨fun _ => ⟨none, none, 0, 0⟩, fun _ _ => none, false, []⟩ ∧
    Installs virt64 .late 0x90000000 0x90400000 ⟨fun _ => ⟨none, none, 0, 0⟩, fun _ _ => none, false, []⟩ := by
  constructor
  · apply install_region
    · exact Nat.dvd_add virt64_region.start_dvd (initMprSize_dvd ..)
    · exact virt64_region.tail_dvd
    · exact virt64_region.room
    · decide
    · exact fun _ x h1 h2 => virt64_region.records h1 h2
  · exact install_region .late _ (by decide) (by decide) (by decide) (by decide) nofun

/-- The page that was the first of the list of the largest order gets a page before it. -/
theorem install_relinks : ∃ s1 s2, rtPageInit virt64 ⟨fun _ => ⟨none, none, 0, 0⟩, fun _ _ => none, false, []⟩
      0x80800000 0x84000000 0 = some s1 ∧
    s1.installPageBy virt64 (InsertHandler.late.insert virt64) 0x90000000 0x90400000 = some s2 ∧
    virt64.addrToPage 0x83c00000 = 0x83c00 ∧ s1.list .low 10 = some 0x83c00 ∧
    (s1.page 0x83c00).pre = none ∧ (s2.page 0x83c00).pre = some 0x90000 := by
  have hrun : ((rtPageInit virt64 ⟨fun _ => ⟨none, none, 0, 0⟩, fun _ _ => none, false, []⟩
      0x80800000 0x84000000 0).bind fun s1 =>
        (s1.installPageBy virt64 (InsertHandler.late.insert virt64) 0x90000000 0x90400000).map fun s2 =>
          (s1.list .low 10, (s1.page 0x83c00).pre, (s2.page 0x83c00).pre)) = some (some 0x83c00, none, some 0x90000) := by
    decide
  obtain ⟨s1, h1, hrest⟩ := Option.bind_eq_some_iff.1 hrun
  obtain ⟨s2, h2, hval⟩ := Option.map_eq_some_iff.1 hrest
  simp only [Prod.mk.injEq] at hval
  exact ⟨s1, s2, h1, h2, by decide, hval.1, hval.2.1, hval.2.2⟩

end RtThread.PageState
