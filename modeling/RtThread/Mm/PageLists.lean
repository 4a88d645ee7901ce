import RtThread.Lib.Buddy
import RtThread.Lib.Doubly
import RtThread.Mm.Page

/-!
# The free lists of pages

The blocks of the free lists and those in use tile the pages, and a page whose record has the tag of an order is the
first of a free block of that order (`Core`). Taking a block off its list, putting one on it, splitting and merging keep
this.
-/

namespace RtThread

theorem PageConfig.maxOrder_le (c : PageConfig) : c.maxOrder ≤ c.addressWidthBits := by
  have := c.shadow_lt
  omega

/-- The list of a block, by its first page. -/
def PageConfig.side (c : PageConfig) (p : Nat) : PageList := if 2 ^ 32 ≤ p * 2 ^ c.pageShift then .high else .low

/-- What the pages `[a, b)` of a region and the records `[lo, hi)` around them have to do with addresses. -/
structure PageConfig.Region (c : PageConfig) (a b lo hi : Nat) : Prop where
  lo_le : lo ≤ a
  le_hi : b ≤ hi
  small : b ≤ 2 ^ 31
  record : ∀ p, a ≤ p → p < b → p * c.recordSize < c.rtMprSize
  addrToPage : ∀ p, a ≤ p → p < b → c.addrToPage (c.pageToAddr p) = p
  getPageList : ∀ p, a ≤ p → p < b → c.getPageList (c.pageToAddr p) = c.side p
  aligned : ∀ p k, a ≤ p → p < b → k < c.maxOrder → 2 ^ k ∣ p → 2 ^ (k + c.pageShift) ∣ c.pageToAddr p
  buddyGet : ∀ p k, a ≤ p → p < b → k < c.maxOrder - 1 → 2 ^ k ∣ p → c.buddyGet p k = Buddy.buddy p k
  shadow : ∀ p k, a ≤ p → p < b → k < c.maxOrder - 1 → 2 ^ k ∣ p → lo ≤ Buddy.buddy p k ∧ Buddy.buddy p k < hi

namespace PageState

open Buddy (Holds Tiled Reduced buddy)

variable {c : PageConfig} {s s' : PageState} {l l' : PageList} {p q x k j a b lo hi : Nat} {d e : Nat × Nat}
  {free free' : PageList → Nat → List Nat} {busy busy' : List (Nat × Nat)}

/-! ## Fields -/

/-- A page of the list of the other half of a block is on the same side. -/
theorem side_eq_of_holds (hd : 2 ^ d.2 ∣ d.1) (hk : d.2 ≤ c.maxOrder - 1) (hx : Holds d x) : c.side x = c.side d.1 := by
  have hshadow := c.shadow_le
  have hpow : 2 ^ 32 = 2 ^ d.2 * 2 ^ (32 - c.pageShift - d.2) * 2 ^ c.pageShift := by
    rw [← Nat.pow_add, ← Nat.pow_add]
    congr 1
    omega
  have hside : ∀ y, 2 ^ 32 ≤ y * 2 ^ c.pageShift ↔ 2 ^ (32 - c.pageShift - d.2) ≤ y / 2 ^ d.2 := by
    intro y
    rw [hpow, Nat.mul_le_mul_right_iff (Nat.two_pow_pos _), Nat.le_div_iff_mul_le (Nat.two_pow_pos _), Nat.mul_comm]
  have hquot := (Buddy.holds_iff hd).1 hx
  have hiff : 2 ^ 32 ≤ x * 2 ^ c.pageShift ↔ 2 ^ 32 ≤ d.1 * 2 ^ c.pageShift := by
    rw [hside x, hside d.1, hquot]
  simp only [PageConfig.side, hiff]

section Fields

variable {r : RtPage} {n : BitVec 32} {h : Option Nat}

@[simp] theorem setHead_page : (s.setHead l k h).page = s.page := rfl

theorem setNext_page (s : PageState) (p : Nat) (h : Option Nat) (x : Nat) :
    (s.setNext p h).page x = if x = p then { s.page p with next := h } else s.page x := by
  simp [setNext, setPage, Function.update_apply]

theorem setPre_page (s : PageState) (p : Nat) (h : Option Nat) (x : Nat) :
    (s.setPre p h).page x = if x = p then { s.page p with pre := h } else s.page x := by
  simp [setPre, setPage, Function.update_apply]

theorem setSizeBits_page (s : PageState) (p k x : Nat) :
    (s.setSizeBits p k).page x = if x = p then { s.page p with sizeBits := k } else s.page x := by
  simp [setSizeBits, setPage, Function.update_apply]

theorem setRefCnt_page (s : PageState) (p : Nat) (n : BitVec 32) (x : Nat) :
    (s.setRefCnt p n).page x = if x = p then { s.page p with refCnt := n } else s.page x := by
  simp [setRefCnt, setPage, Function.update_apply]

@[simp] theorem setNext_list : (s.setNext p h).list = s.list := rfl
@[simp] theorem setPre_list : (s.setPre p h).list = s.list := rfl
@[simp] theorem setSizeBits_list : (s.setSizeBits p k).list = s.list := rfl
@[simp] theorem setRefCnt_list : (s.setRefCnt p n).list = s.list := rfl

theorem setHead_list (s : PageState) (l : PageList) (k : Nat) (h : Option Nat) (l' : PageList) (j : Nat) :
    (s.setHead l k h).list l' j = if l' = l ∧ j = k then h else s.list l' j := by
  by_cases hl : l' = l
  · subst hl
    by_cases hj : j = k
    · simp [setHead, hj]
    · simp [setHead, hj]
  · simp [setHead, hl]

end Fields

/-- What operations on the lists leave alone. -/
structure Kept (s s' : PageState) : Prop where
  refCnt : ∀ x, (s'.page x).refCnt = (s.page x).refCnt
  live : s'.live = s.live
  high : s'.highPageConfigured = s.highPageConfigured

theorem Kept.refl (s : PageState) : Kept s s := ⟨fun _ => rfl, rfl, rfl⟩

theorem Kept.trans {s'' : PageState} (h : Kept s s') (h' : Kept s' s'') : Kept s s'' :=
  ⟨fun x => (h'.refCnt x).trans (h.refCnt x), h'.live.trans h.live, h'.high.trans h.high⟩

/-! ## Taking off and putting on -/

theorem setNextOf_page (s : PageState) (l : PageList) (k : Nat) (q h : Option Nat) (x : Nat) :
    (s.setNextOf l k q h).page x = if q = some x then { s.page x with next := h } else s.page x := by
  cases q with
  | none => rfl
  | some q =>
    rw [setNextOf, setNext_page]
    by_cases hx : x = q
    · subst hx
      rw [if_pos rfl, if_pos rfl]
    · rw [if_neg hx, if_neg fun e => hx (Option.some.inj e).symm]

theorem setPreOf_page (s : PageState) (q h : Option Nat) (x : Nat) :
    (s.setPreOf q h).page x = if q = some x then { s.page x with pre := h } else s.page x := by
  cases q with
  | none => rfl
  | some q =>
    rw [setPreOf, setPre_page]
    by_cases hx : x = q
    · subst hx
      rw [if_pos rfl, if_pos rfl]
    · rw [if_neg hx, if_neg fun e => hx (Option.some.inj e).symm]

@[simp] theorem setPreOf_list (s : PageState) (q h : Option Nat) : (s.setPreOf q h).list = s.list := by
  cases q <;> rfl

theorem setNextOf_list (s : PageState) (l : PageList) (k : Nat) (q h : Option Nat) (l' : PageList) (j : Nat) :
    (s.setNextOf l k q h).list l' j = if l' = l ∧ j = k then (if q = none then h else s.list l k) else s.list l' j := by
  cases q with
  | none =>
    rw [setNextOf, setHead_list]
    simp
  | some q =>
    rw [setNextOf, setNext_list]
    split_ifs with h1 h2
    · cases h2
    · rw [h1.1, h1.2]
    · rfl

/-- A page off its list: its neighbours are linked, and its tag goes. -/
theorem pageRemove_page (hp : (s.page p).pre ≠ some p) (hne : x ≠ p) : (s.pageRemove c l p k).page x =
    { s.page x with
      next := if (s.page p).pre = some x then (s.page p).next else (s.page x).next
      pre := if (s.page p).next = some x then (s.page p).pre else (s.page x).pre } := by
  have hself : (s.setNextOf l k (s.page p).pre (s.page p).next).page p = s.page p := by
    rw [setNextOf_page, if_neg hp]
  simp only [pageRemove, setSizeBits_page, if_neg hne, hself, setPreOf_page, setNextOf_page]
  split_ifs <;> rfl

section

variable (s : PageState)

theorem pageRemove_rest (l : PageList) (p k x : Nat) :
    ((s.pageRemove c l p k).page x).refCnt = (s.page x).refCnt ∧
    ((s.pageRemove c l p k).page x).sizeBits = if x = p then c.addressWidthBits else (s.page x).sizeBits := by
  simp only [pageRemove, setSizeBits_page, setPreOf_page, setNextOf_page]
  by_cases hx : x = p
  · subst hx
    rw [if_pos rfl, if_pos rfl]
    refine ⟨?_, rfl⟩
    split_ifs <;> rfl
  · constructor <;> split_ifs <;> rfl

theorem pageRemove_list (l : PageList) (p k : Nat) (l' : PageList) (j : Nat) :
    (s.pageRemove c l p k).list l' j =
      if l' = l ∧ j = k then (if (s.page p).pre = none then (s.page p).next else s.list l k) else s.list l' j := by
  simp only [pageRemove, setSizeBits_list, setPreOf_list, setNextOf_list]

theorem setNextOf_rest (l : PageList) (k : Nat) (q h : Option Nat) :
    (s.setNextOf l k q h).live = s.live ∧ (s.setNextOf l k q h).highPageConfigured = s.highPageConfigured := by
  cases q <;> exact ⟨rfl, rfl⟩

theorem setPreOf_rest (q h : Option Nat) :
    (s.setPreOf q h).live = s.live ∧ (s.setPreOf q h).highPageConfigured = s.highPageConfigured := by
  cases q <;> exact ⟨rfl, rfl⟩

theorem pageRemove_kept (l : PageList) (p k : Nat) : Kept s (s.pageRemove c l p k) where
  refCnt x := (pageRemove_rest s l p k x).1
  live := (setPreOf_rest _ _ _).1.trans (setNextOf_rest _ _ _ _ _).1
  high := (setPreOf_rest _ _ _).2.trans (setNextOf_rest _ _ _ _ _).2

/-- A page on a list: the first there was comes after it. -/
theorem pageInsert_page (l : PageList) (p k x : Nat) : (s.pageInsert l p k).page x =
    if x = p then ⟨s.list l k, none, k, (s.page p).refCnt⟩
    else { s.page x with pre := if s.list l k = some x then some p else (s.page x).pre } := by
  simp only [pageInsert, setSizeBits_page, setPre_page, setHead_page, setPreOf_page, setNext_page, if_true]
  by_cases hx : x = p
  · split_ifs <;> rfl
  · split_ifs <;> rfl

theorem pageInsert_list (l : PageList) (p k : Nat) (l' : PageList) (j : Nat) :
    (s.pageInsert l p k).list l' j = if l' = l ∧ j = k then some p else s.list l' j := by
  simp only [pageInsert, setSizeBits_list, setHead_list, setPre_list, setPreOf_list, setNext_list]

theorem pageInsert_kept (l : PageList) (p k : Nat) : Kept s (s.pageInsert l p k) where
  refCnt x := by
    rw [pageInsert_page]
    by_cases hx : x = p
    · rw [if_pos hx, hx]
    · rw [if_neg hx]
  live := (setPreOf_rest _ _ _).1
  high := (setPreOf_rest _ _ _).2

end

/-! ## The blocks -/

def setFree (free : PageList → Nat → List Nat) (l : PageList) (k : Nat) (xs : List Nat) : PageList → Nat → List Nat :=
  fun l' j => if l' = l ∧ j = k then xs else free l' j

theorem setFree_self (free : PageList → Nat → List Nat) (l : PageList) (k : Nat) (xs : List Nat) :
    setFree free l k xs l k = xs := if_pos ⟨rfl, rfl⟩

theorem setFree_of_ne {xs : List Nat} (h : ¬ (l' = l ∧ j = k)) : setFree free l k xs l' j = free l' j := if_neg h

/-- A block is on a free list. -/
def IsFree (free : PageList → Nat → List Nat) (d : Nat × Nat) : Prop := ∃ l, d.1 ∈ free l d.2

/-- The free lists and the blocks in use: they tile the pages, and the tags of the records say which blocks are free. -/
structure Core (c : PageConfig) (a b lo hi : Nat) (s : PageState) (free : PageList → Nat → List Nat)
    (busy : List (Nat × Nat)) : Prop where
  links : ∀ l k, k < c.maxOrder →
    Doubly.Linked (fun p => (s.page p).next) (fun p => (s.page p).pre) none (s.list l k) (free l k)
  nodup : ∀ l k, (free l k).Nodup
  side : ∀ l k, ∀ p ∈ free l k, l = c.side p
  tiled : Tiled (fun x => a ≤ x ∧ x < b) (c.maxOrder - 1) fun d => d ∈ busy ∨ IsFree free d
  busy_nodup : busy.Nodup
  busy_free : ∀ d ∈ busy, ¬ IsFree free d
  tag : ∀ x, lo ≤ x → x < hi → (s.page x).sizeBits < c.maxOrder → IsFree free (x, (s.page x).sizeBits)
  free_tag : ∀ l k, ∀ p ∈ free l k, (s.page p).sizeBits = k
  reduced : Reduced (c.maxOrder - 1) (IsFree free)

section

variable (h : Core c a b lo hi s free busy)

include h

theorem Core.perm (hp : busy.Perm busy') : Core c a b lo hi s free busy' where
  links := h.links
  nodup := h.nodup
  side := h.side
  tiled := h.tiled.congr fun d => by rw [hp.mem_iff]
  busy_nodup := hp.nodup_iff.1 h.busy_nodup
  busy_free d hd := h.busy_free d (hp.mem_iff.2 hd)
  tag := h.tag
  free_tag := h.free_tag
  reduced := h.reduced

/-- A page is the first of one free block, on one list. -/
theorem Core.free_unique (hp : p ∈ free l k) (hp' : p ∈ free l' j) : l' = l ∧ j = k := by
  constructor
  · rw [h.side l k p hp, h.side l' j p hp']
  · exact (h.free_tag l' j p hp').symm.trans (h.free_tag l k p hp)

theorem Core.order (hp : p ∈ free l k) : k < c.maxOrder := by
  have h1 : k ≤ c.maxOrder - 1 := h.tiled.order (p, k) (.inr ⟨l, hp⟩)
  have := c.maxOrder_pos
  omega

theorem Core.not_free_of_busy (hd : (p, k) ∈ busy) : p ∉ free l j := by
  intro hp
  have := h.tiled.apart (p, k) (p, j) p (.inl hd) (.inr ⟨l, hp⟩) (Buddy.holds_self _) (Buddy.holds_self _)
  obtain rfl := (Prod.mk.inj this).2
  exact h.busy_free _ hd ⟨l, hp⟩

theorem mem_setFree_erase (hp : p ∈ free l k) :
    q ∈ setFree free l k ((free l k).erase p) l' j ↔ q ∈ free l' j ∧ q ≠ p := by
  by_cases hlj : l' = l ∧ j = k
  · obtain ⟨rfl, rfl⟩ := hlj
    rw [setFree_self, List.Nodup.mem_erase_iff (h.nodup l' j), and_comm]
  · rw [setFree_of_ne hlj]
    refine ⟨fun hq => ⟨hq, ?_⟩, And.left⟩
    rintro rfl
    exact hlj (h.free_unique hp hq)

/-- A free block is taken off its list. -/
theorem Core.remove (hp : p ∈ free l k) :
    Core c a b lo hi (s.pageRemove c l p k) (setFree free l k ((free l k).erase p)) ((p, k) :: busy) := by
  have hlinks := h.links l k (h.order hp)
  have hself : (s.page p).pre ≠ some p := hlinks.pre_ne (h.nodup l k) (by simp) hp
  have hmem : ∀ {l' j q}, q ∈ setFree free l k ((free l k).erase p) l' j ↔ q ∈ free l' j ∧ q ≠ p :=
    mem_setFree_erase h hp
  have hfree : ∀ d, IsFree (setFree free l k ((free l k).erase p)) d ↔ IsFree free d ∧ d.1 ≠ p := by
    intro d
    simp only [IsFree, hmem, exists_and_right]
  have hpk : ∀ d, d.1 = p → IsFree free d → d = (p, k) := by
    rintro ⟨q, j⟩ hq ⟨l', hl'⟩
    obtain rfl : q = p := hq
    obtain ⟨-, rfl⟩ := h.free_unique hp hl'
    rfl
  constructor
  · intro l' j hj
    rw [pageRemove_list]
    by_cases hlj : l' = l ∧ j = k
    · obtain ⟨rfl, rfl⟩ := hlj
      rw [if_pos ⟨rfl, rfl⟩, setFree_self]
      apply hlinks.remove (h.nodup l' j) hp (by simp)
      · intro y _ hne
        simp only [pageRemove_page hself hne]
      · intro y _ hne
        simp only [pageRemove_page hself hne]
    · rw [if_neg hlj, setFree_of_ne hlj]
      -- the links of the other lists do not lead here
      have hother : ∀ y ∈ free l' j, y ≠ p ∧ (s.page p).pre ≠ some y ∧ (s.page p).next ≠ some y := by
        intro y hy
        refine ⟨?_, ?_, ?_⟩
        · rintro rfl
          exact hlj (h.free_unique hp hy)
        · intro he
          rcases hlinks.pre_mem hp with h1 | ⟨z, hz, h1⟩
          · rw [h1] at he
            cases he
          · rw [h1] at he
            cases he
            exact hlj (h.free_unique hz hy)
        · intro he
          exact hlj (h.free_unique (hlinks.next_mem hp he) hy)
      apply (h.links l' j hj).congr
      · intro y hy
        obtain ⟨h1, h2, -⟩ := hother y hy
        simp only [pageRemove_page hself h1, if_neg h2]
      · intro y hy
        obtain ⟨h1, -, h3⟩ := hother y hy
        simp only [pageRemove_page hself h1, if_neg h3]
  · intro l' j
    by_cases hlj : l' = l ∧ j = k
    · obtain ⟨rfl, rfl⟩ := hlj
      rw [setFree_self]
      exact (h.nodup l' j).erase p
    · rw [setFree_of_ne hlj]
      exact h.nodup l' j
  · intro l' j q hq
    exact h.side l' j q (hmem.1 hq).1
  · apply h.tiled.congr
    intro d
    rw [hfree, List.mem_cons]
    constructor
    · rintro ((rfl | hd) | ⟨hd, -⟩)
      · exact .inr ⟨l, hp⟩
      · exact .inl hd
      · exact .inr hd
    · rintro (hd | hd)
      · exact .inl (.inr hd)
      · by_cases hdp : d.1 = p
        · exact .inl (.inl (hpk d hdp hd))
        · exact .inr ⟨hd, hdp⟩
  · rw [List.nodup_cons]
    exact ⟨fun hd => h.busy_free _ hd ⟨l, hp⟩, h.busy_nodup⟩
  · intro d hd hdf
    rw [hfree] at hdf
    rcases List.mem_cons.1 hd with rfl | hd
    · exact hdf.2 rfl
    · exact h.busy_free d hd hdf.1
  · intro x h1 h2 h3
    have hM := c.maxOrder_le
    rw [(pageRemove_rest s l p k x).2] at h3 ⊢
    by_cases hx : x = p
    · rw [if_pos hx] at h3
      omega
    · rw [if_neg hx] at h3 ⊢
      rw [hfree]
      exact ⟨h.tag x h1 h2 h3, hx⟩
  · intro l' j q hq
    obtain ⟨hq, hne⟩ := hmem.1 hq
    rw [(pageRemove_rest s l p k q).2, if_neg hne]
    exact h.free_tag l' j q hq
  · intro q j hj h1 h2
    rw [hfree] at h1 h2
    exact h.reduced q j hj h1.1 h2.1

end

theorem isFree_setFree_cons (free : PageList → Nat → List Nat) (l : PageList) (p k : Nat) (d : Nat × Nat) :
    IsFree (setFree free l k (p :: free l k)) d ↔ IsFree free d ∨ d = (p, k) := by
  obtain ⟨q, j⟩ := d
  simp only [IsFree, Prod.mk.injEq]
  constructor
  · rintro ⟨l', hq⟩
    by_cases hlj : l' = l ∧ j = k
    · obtain ⟨rfl, rfl⟩ := hlj
      rw [setFree_self] at hq
      rcases List.mem_cons.1 hq with hq | hq
      · exact .inr ⟨hq, rfl⟩
      · exact .inl ⟨l', hq⟩
    · rw [setFree_of_ne hlj] at hq
      exact .inl ⟨l', hq⟩
  · rintro (⟨l', hq⟩ | ⟨rfl, rfl⟩)
    · refine ⟨l', ?_⟩
      by_cases hlj : l' = l ∧ j = k
      · obtain ⟨rfl, rfl⟩ := hlj
        rw [setFree_self]
        exact List.mem_cons_of_mem _ hq
      · rw [setFree_of_ne hlj]
        exact hq
    · refine ⟨l, ?_⟩
      rw [setFree_self]
      exact List.mem_cons_self

/-- A block is put on its list; its buddy is not free. -/
theorem Core.insert (h : Core c a b lo hi s free ((p, k) :: busy))
    (hb : k < c.maxOrder - 1 → ¬ IsFree free (buddy p k, k)) :
    Core c a b lo hi (s.pageInsert (c.side p) p k) (setFree free (c.side p) k (p :: free (c.side p) k)) busy := by
  have hbusy : (p, k) ∈ (p, k) :: busy := by simp
  have hpf : ∀ {l' j}, p ∉ free l' j := h.not_free_of_busy hbusy
  have hmem : ∀ {l' j q}, q ∈ setFree free (c.side p) k (p :: free (c.side p) k) l' j ↔
      q ∈ free l' j ∨ (q = p ∧ l' = c.side p ∧ j = k) := by
    intro l' j q
    by_cases hlj : l' = c.side p ∧ j = k
    · obtain ⟨rfl, rfl⟩ := hlj
      rw [setFree_self, List.mem_cons]
      tauto
    · rw [setFree_of_ne hlj]
      tauto
  have hfree := isFree_setFree_cons free (c.side p) p k
  have hpage : ∀ y, y ≠ p → (s.pageInsert (c.side p) p k).page y =
      { s.page y with pre := if s.list (c.side p) k = some y then some p else (s.page y).pre } := by
    intro y hy
    rw [pageInsert_page, if_neg hy]
  have hk : k < c.maxOrder := by
    have h1 : k ≤ c.maxOrder - 1 := h.tiled.order _ (.inl hbusy)
    have := c.maxOrder_pos
    omega
  constructor
  · intro l' j hj
    rw [pageInsert_list]
    by_cases hlj : l' = c.side p ∧ j = k
    · obtain ⟨rfl, rfl⟩ := hlj
      rw [if_pos ⟨rfl, rfl⟩, setFree_self]
      have hne : ∀ y ∈ free (c.side p) j, y ≠ p := by
        rintro y hy rfl
        exact hpf hy
      apply (h.links _ j hj).push (h.nodup _ j)
      · simp only [pageInsert_page, if_pos]
      · simp only [pageInsert_page, if_pos]
      · intro y hy
        simp only [hpage y (hne y hy)]
      · intro y hy
        have hin : y ∈ free (c.side p) j := by
          rw [(h.links _ j hj).head_eq] at hy
          exact List.mem_of_head? hy
        simp only [hpage y (hne y hin), if_pos hy]
      · intro y hy hne'
        simp only [hpage y (hne y hy), if_neg hne']
    · rw [if_neg hlj, setFree_of_ne hlj]
      have hother : ∀ y ∈ free l' j, y ≠ p ∧ s.list (c.side p) k ≠ some y := by
        intro y hy
        constructor
        · rintro rfl
          exact hpf hy
        · intro he
          rw [(h.links _ k hk).head_eq] at he
          exact hlj (h.free_unique (List.mem_of_head? he) hy)
      apply (h.links l' j hj).congr
      · intro y hy
        simp only [hpage y (hother y hy).1]
      · intro y hy
        simp only [hpage y (hother y hy).1, if_neg (hother y hy).2]
  · intro l' j
    by_cases hlj : l' = c.side p ∧ j = k
    · obtain ⟨rfl, rfl⟩ := hlj
      rw [setFree_self, List.nodup_cons]
      exact ⟨hpf, h.nodup _ j⟩
    · rw [setFree_of_ne hlj]
      exact h.nodup l' j
  · intro l' j q hq
    rcases hmem.1 hq with hq | ⟨rfl, rfl, -⟩
    · exact h.side l' j q hq
    · rfl
  · apply h.tiled.congr
    intro d
    rw [hfree, List.mem_cons]
    tauto
  · exact (List.nodup_cons.1 h.busy_nodup).2
  · intro d hd hdf
    rw [hfree] at hdf
    rcases hdf with hdf | rfl
    · exact h.busy_free d (by simp [hd]) hdf
    · exact (List.nodup_cons.1 h.busy_nodup).1 hd
  · intro x h1 h2 h3
    rw [hfree]
    by_cases hx : x = p
    · right
      rw [pageInsert_page, if_pos hx, hx]
    · rw [hpage x hx] at h3 ⊢
      exact .inl (h.tag x h1 h2 h3)
  · intro l' j q hq
    rcases hmem.1 hq with hqf | ⟨rfl, -, rfl⟩
    · have hne : q ≠ p := by rintro rfl; exact hpf hqf
      rw [hpage q hne]
      exact h.free_tag l' j q hqf
    · rw [pageInsert_page, if_pos rfl]
  · intro q j hj h1 h2
    have hpa : 2 ^ k ∣ p := h.tiled.aligned (p, k) (.inl hbusy)
    rw [hfree] at h1 h2
    rcases h1 with h1 | h1 <;> rcases h2 with h2 | h2
    · exact h.reduced q j hj h1 h2
    · obtain ⟨h3, rfl⟩ := Prod.mk.inj h2
      have hqa : 2 ^ j ∣ q := h.tiled.aligned (q, j) (.inr h1)
      apply hb hj
      rw [← h3, Buddy.buddy_buddy hqa]
      exact h1
    · cases h1
      exact hb hj h2
    · cases h1
      exact Buddy.buddy_ne hpa (Prod.mk.inj h2).1

/-- A block in use is split. -/
theorem Core.split (h : Core c a b lo hi s free ((p, k + 1) :: busy)) :
    Core c a b lo hi s free ((p, k) :: (p + 2 ^ k, k) :: busy) := by
  have hpos := Nat.two_pow_pos k
  have hin : ∀ d, d = (p, k) ∨ d = (p + 2 ^ k, k) → Holds (p, k + 1) d.1 := by
    rintro d (rfl | rfl)
    · exact Buddy.holds_self (p, k + 1)
    · exact Buddy.holds_succ.2 (.inr (Buddy.holds_self _))
  -- no other block has cells of the halves
  have hother : ∀ d, d = (p, k) ∨ d = (p + 2 ^ k, k) → ¬ (d ∈ busy ∨ IsFree free d) := by
    intro d hd hdb
    have hdb' : d ∈ (p, k + 1) :: busy ∨ IsFree free d := hdb.imp (List.mem_cons_of_mem _) id
    have he := h.tiled.apart d (p, k + 1) d.1 hdb' (.inl (by simp)) (Buddy.holds_self d) (hin d hd)
    rcases hd with rfl | rfl
    · exact absurd (Prod.mk.inj he).2 (by omega)
    · exact absurd (Prod.mk.inj he).2 (by omega)
  have hpk : ¬ (p, k + 1) ∈ busy := (List.nodup_cons.1 h.busy_nodup).1
  have hpf : ¬ IsFree free (p, k + 1) := h.busy_free _ (by simp)
  constructor
  · exact h.links
  · exact h.nodup
  · exact h.side
  · apply (h.tiled.split (.inl List.mem_cons_self)).congr
    intro d
    simp only [List.mem_cons]
    constructor
    · rintro ((hd | hd | hd) | hd)
      · exact .inr (.inl hd)
      · exact .inr (.inr hd)
      · exact .inl ⟨.inl (.inr hd), by rintro rfl; exact hpk hd⟩
      · exact .inl ⟨.inr hd, by rintro rfl; exact hpf hd⟩
    · rintro (⟨(hd | hd) | hd, hne⟩ | hd | hd)
      · exact absurd hd hne
      · exact .inl (.inr (.inr hd))
      · exact .inr hd
      · exact .inl (.inl hd)
      · exact .inl (.inr (.inl hd))
  · simp only [List.nodup_cons, List.mem_cons, not_or]
    refine ⟨⟨?_, fun hd => hother _ (.inl rfl) (.inl hd)⟩, fun hd => hother _ (.inr rfl) (.inl hd),
      (List.nodup_cons.1 h.busy_nodup).2⟩
    intro he
    have := (Prod.mk.inj he).1
    omega
  · intro d hd hdf
    rcases List.mem_cons.1 hd with hd | hd
    · exact hother d (.inl hd) (.inr hdf)
    · rcases List.mem_cons.1 hd with hd | hd
      · exact hother d (.inr hd) (.inr hdf)
      · exact h.busy_free d (by simp [hd]) hdf
  · exact h.tag
  · exact h.free_tag
  · exact h.reduced

/-- Two buddies in use are merged. -/
theorem Core.merge (h : Core c a b lo hi s free ((p, k) :: (p + 2 ^ k, k) :: busy)) (hdvd : 2 ^ (k + 1) ∣ p)
    (hk : k < c.maxOrder - 1) : Core c a b lo hi s free ((p, k + 1) :: busy) := by
  have hnd := h.busy_nodup
  simp only [List.nodup_cons, List.mem_cons, not_or] at hnd
  obtain ⟨⟨-, hp⟩, hq, hbusy⟩ := hnd
  have hpf : ¬ IsFree free (p, k) := h.busy_free _ (by simp)
  have hqf : ¬ IsFree free (p + 2 ^ k, k) := h.busy_free _ (by simp)
  have hself : Holds (p, k) p := Buddy.holds_self (p, k)
  have hother : ¬ ((p, k + 1) ∈ busy ∨ IsFree free (p, k + 1)) := by
    intro hd
    have hd' : (p, k + 1) ∈ (p, k) :: (p + 2 ^ k, k) :: busy ∨ IsFree free (p, k + 1) := by
      rcases hd with hd | hd
      · exact .inl (by simp [hd])
      · exact .inr hd
    have he := h.tiled.apart (p, k + 1) (p, k) p hd' (.inl (by simp)) (Buddy.holds_self (p, k + 1)) hself
    simp at he
  constructor
  · exact h.links
  · exact h.nodup
  · exact h.side
  · apply (h.tiled.merge (.inl List.mem_cons_self) (.inl (by simp)) hdvd hk).congr
    intro d
    simp only [List.mem_cons]
    constructor
    · rintro ((hd | hd) | hd)
      · exact .inr hd
      · refine .inl ⟨.inl (.inr (.inr hd)), ?_, ?_⟩ <;> rintro rfl
        · exact hp hd
        · exact hq hd
      · refine .inl ⟨.inr hd, ?_, ?_⟩ <;> rintro rfl
        · exact hpf hd
        · exact hqf hd
    · rintro (⟨(hd | hd | hd) | hd, h1, h2⟩ | hd)
      · exact absurd hd h1
      · exact absurd hd h2
      · exact .inl (.inr hd)
      · exact .inr hd
      · exact .inl (.inl hd)
  · rw [List.nodup_cons]
    exact ⟨fun hd => hother (.inl hd), hbusy⟩
  · intro d hd hdf
    rcases List.mem_cons.1 hd with rfl | hd
    · exact hother (.inr hdf)
    · exact h.busy_free d (by simp [hd]) hdf
  · exact h.tag
  · exact h.free_tag
  · exact h.reduced

/-- The lists see the links of the free pages and the tags of all pages. -/
theorem Core.congr (h : Core c a b lo hi s free busy) (hlist : s'.list = s.list)
    (hlinks : ∀ l k, ∀ q ∈ free l k, (s'.page q).next = (s.page q).next ∧ (s'.page q).pre = (s.page q).pre)
    (htag : ∀ x, (s'.page x).sizeBits = (s.page x).sizeBits) : Core c a b lo hi s' free busy := by
  constructor
  · intro l k hk
    rw [hlist]
    apply (h.links l k hk).congr
    · exact fun q hq => (hlinks l k q hq).1
    · exact fun q hq => (hlinks l k q hq).2
  · exact h.nodup
  · exact h.side
  · exact h.tiled
  · exact h.busy_nodup
  · exact h.busy_free
  · intro x h1 h2 h3
    rw [htag] at h3 ⊢
    exact h.tag x h1 h2 h3
  · intro l k q hq
    rw [htag]
    exact h.free_tag l k q hq
  · exact h.reduced

/-- The reference count of a page is set. -/
theorem Core.setRefCnt (h : Core c a b lo hi s free busy) (p : Nat) (n : BitVec 32) :
    Core c a b lo hi (s.setRefCnt p n) free busy := by
  have hpage : ∀ x, (s.setRefCnt p n).page x = { s.page x with refCnt := if x = p then n else (s.page x).refCnt } := by
    intro x
    rw [setRefCnt_page]
    by_cases hx : x = p
    · subst hx
      simp
    · simp [hx]
  apply h.congr (setRefCnt_list (n := n) (p := p))
  · intro l k q _
    rw [hpage]
    exact ⟨rfl, rfl⟩
  · intro x
    rw [hpage]

/-- The first page of a block in use is marked. -/
theorem Core.setSizeBits (h : Core c a b lo hi s free ((p, k) :: busy)) :
    Core c a b lo hi (s.setSizeBits p c.addressWidthBits) free ((p, k) :: busy) := by
  have hpage : ∀ x, x ≠ p → (s.setSizeBits p c.addressWidthBits).page x = s.page x := by
    intro x hx
    rw [setSizeBits_page, if_neg hx]
  have hne : ∀ l j, ∀ q ∈ free l j, q ≠ p := by
    rintro l j q hq rfl
    exact h.not_free_of_busy List.mem_cons_self hq
  constructor
  · intro l j hj
    apply (h.links l j hj).congr
    · intro q hq
      simp only [hpage q (hne l j q hq)]
    · intro q hq
      simp only [hpage q (hne l j q hq)]
  · exact h.nodup
  · exact h.side
  · exact h.tiled
  · exact h.busy_nodup
  · exact h.busy_free
  · intro x h1 h2 h3
    have hM := c.maxOrder_le
    by_cases hx : x = p
    · rw [setSizeBits_page, if_pos hx] at h3
      simp only at h3
      omega
    · rw [hpage x hx] at h3 ⊢
      exact h.tag x h1 h2 h3
  · intro l j q hq
    rw [hpage q (hne l j q hq)]
    exact h.free_tag l j q hq
  · exact h.reduced

end PageState

end RtThread
