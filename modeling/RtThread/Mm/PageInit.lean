import RtThread.Mm.PageRun

/-!
# Setting up the pages

Virtual addresses and page frames correspond in a region and its shadow (`Window`, `Window.region`), and the free lists
that `rt_page_init` makes cut the region into the largest blocks (`installed`).
-/

namespace RtThread

open Buddy (Holds Tiled Reduced Cut buddy)

namespace PageConfig

variable {c : PageConfig} {x y p k j v e st tl a b : Nat}

theorem shadowSize_eq (c : PageConfig) : c.shadowSize = 2 ^ (c.maxOrder - 1) * 2 ^ c.pageShift := Nat.pow_add ..

theorem shadowSize_dvd_two_pow (c : PageConfig) : c.shadowSize ∣ 2 ^ c.addressWidthBits :=
  Nat.pow_dvd_pow 2 (Nat.le_of_lt c.shadow_lt)

theorem down_dvd (x n : Nat) : n ∣ down x n := Nat.dvd_sub_mod x

theorem down_le (x n : Nat) : down x n ≤ x := Nat.sub_le _ _

variable {n : Nat}

theorem lt_down_add (hn : 0 < n) (x : Nat) : x < down x n + n := by
  have h1 := Nat.mod_lt x hn
  rw [down]
  omega

theorem le_down (hn : 0 < n) (hy : n ∣ y) (h : y ≤ x) : y ≤ down x n := by
  have h1 := lt_down_add hn x
  by_contra hlt
  have h2 := Nat.le_of_dvd (by omega) (Nat.dvd_sub hy (down_dvd x n))
  omega

theorem down_of_dvd (h : n ∣ x) : down x n = x := by
  rw [down, Nat.mod_eq_zero_of_dvd h, Nat.sub_zero]

/-- Rounding up, without a wrap. -/
theorem floor_spec (hn : 0 < n) (h : x + n ≤ 2 ^ c.addressWidthBits) :
    n ∣ c.floor x n ∧ x ≤ c.floor x n ∧ c.floor x n < x + n := by
  have e : (x + n - 1) % 2 ^ c.addressWidthBits = x + n - 1 := Nat.mod_eq_of_lt (by omega)
  have h1 := lt_down_add hn (x + n - 1)
  have h2 := down_le (x + n - 1) n
  rw [floor, e]
  refine ⟨Nat.dvd_sub_mod _, ?_, ?_⟩
  · change x ≤ down (x + n - 1) n
    omega
  · omega

/-- Whole shadows, from `v` to `e`, whose physical addresses do not wrap. -/
structure Window (c : PageConfig) (v e : Nat) : Prop where
  le : v ≤ e
  v_dvd : c.shadowSize ∣ v
  e_dvd : c.shadowSize ∣ e
  lt : e < 2 ^ c.addressWidthBits
  phys_lt : c.v2p v + (e - v) < 2 ^ c.addressWidthBits
  vaddr : c.v2p v + (e - v) ≤ 2 ^ c.vaddrWidth
  int : c.v2p v + (e - v) ≤ 2 ^ (31 + c.pageShift)

theorem Window.v2p_eq (hw : c.Window v e) (h1 : v ≤ x) (h2 : x ≤ e) : c.v2p x = c.v2p v + (x - v) := by
  have h3 := hw.phys_lt
  have hsum : x + c.pvOffset = (v + c.pvOffset) + (x - v) := by omega
  rw [v2p] at h3 ⊢
  rw [v2p, hsum, ← Nat.mod_add_mod, Nat.mod_eq_of_lt (by omega)]

theorem Window.v2p_dvd (hw : c.Window v e) : c.shadowSize ∣ c.v2p v := by
  rw [v2p, Nat.dvd_mod_iff c.shadowSize_dvd_two_pow]
  exact Nat.dvd_add hw.v_dvd c.pvOffset_dvd

theorem Window.addrToPage_eq (hw : c.Window v e) (h1 : v ≤ x) (h2 : x ≤ e) :
    c.addrToPage x = (c.v2p v + (x - v)) / 2 ^ c.pageShift := by
  rw [addrToPage, hw.v2p_eq h1 h2, Nat.shiftRight_eq_div_pow]

theorem pageSize_dvd_shadowSize (c : PageConfig) : 2 ^ c.pageShift ∣ c.shadowSize := ⟨_, (c.shadowSize_eq).trans (Nat.mul_comm ..)⟩

/-- The physical address of a page. -/
theorem Window.addrToPage_mul (hw : c.Window v e) (h1 : v ≤ x) (h2 : x ≤ e) (hx : 2 ^ c.pageShift ∣ x) :
    c.addrToPage x * 2 ^ c.pageShift = c.v2p v + (x - v) := by
  rw [hw.addrToPage_eq h1 h2]
  apply Nat.div_mul_cancel
  apply Nat.dvd_add
  · exact Nat.dvd_trans c.pageSize_dvd_shadowSize hw.v2p_dvd
  · exact Nat.dvd_sub hx (Nat.dvd_trans c.pageSize_dvd_shadowSize hw.v_dvd)

/-- The virtual address of a page frame. -/
def addrOf (c : PageConfig) (v p : Nat) : Nat := v + (p * 2 ^ c.pageShift - c.v2p v)

theorem Window.addrOf_addrToPage (hw : c.Window v e) (h1 : v ≤ x) (h2 : x ≤ e) (hx : 2 ^ c.pageShift ∣ x) :
    c.addrOf v (c.addrToPage x) = x := by
  rw [addrOf, hw.addrToPage_mul h1 h2 hx]
  omega

section

variable (hw : c.Window v e) (h1 : c.addrToPage v ≤ p) (h2 : p ≤ c.addrToPage e)

include hw h1 h2

/-- The frames of a window are at its addresses. -/
theorem Window.addrOf_spec :
    p * 2 ^ c.pageShift = c.v2p v + (c.addrOf v p - v) ∧ v ≤ c.addrOf v p ∧ c.addrOf v p ≤ e ∧
      c.addrToPage (c.addrOf v p) = p := by
  have hS := Nat.two_pow_pos c.pageShift
  have hle := hw.le
  have hv := hw.addrToPage_mul (Nat.le_refl v) hle (Nat.dvd_trans c.pageSize_dvd_shadowSize hw.v_dvd)
  have he := hw.addrToPage_mul hle (Nat.le_refl e) (Nat.dvd_trans c.pageSize_dvd_shadowSize hw.e_dvd)
  have h3 := Nat.mul_le_mul_right (2 ^ c.pageShift) h1
  have h4 := Nat.mul_le_mul_right (2 ^ c.pageShift) h2
  have h5 : c.v2p v + (c.addrOf v p - v) = p * 2 ^ c.pageShift := by
    rw [addrOf]
    omega
  have h6 : v ≤ c.addrOf v p ∧ c.addrOf v p ≤ e := by
    rw [addrOf]
    omega
  refine ⟨h5.symm, h6.1, h6.2, ?_⟩
  rw [hw.addrToPage_eq h6.1 h6.2, h5, Nat.mul_div_cancel _ hS]

/-- Blocks are as aligned as their frames. -/
theorem Window.dvd_addrOf
    (hk : k ≤ c.maxOrder - 1) : 2 ^ (k + c.pageShift) ∣ c.addrOf v p ↔ 2 ^ k ∣ p := by
  obtain ⟨h3, h4, -, -⟩ := hw.addrOf_spec h1 h2
  have hQ : 2 ^ (k + c.pageShift) ∣ c.shadowSize := Nat.pow_dvd_pow 2 (by omega)
  have h5 : 2 ^ (k + c.pageShift) ∣ c.v2p v := Nat.dvd_trans hQ hw.v2p_dvd
  have h6 : 2 ^ (k + c.pageShift) ∣ v := Nat.dvd_trans hQ hw.v_dvd
  have h7 : c.addrOf v p = v + (c.addrOf v p - v) := by omega
  have h8 : 2 ^ (k + c.pageShift) ∣ p * 2 ^ c.pageShift ↔ 2 ^ k ∣ p := by
    rw [Nat.pow_add]
    exact Nat.mul_dvd_mul_iff_right (Nat.two_pow_pos _)
  rw [← h8, h3, h7, Nat.dvd_add_right h6, Nat.add_sub_cancel_left, Nat.dvd_add_right h5]

theorem Window.pageToAddr_eq : c.pageToAddr p = c.addrOf v p := by
  obtain ⟨h3, h4, h5, -⟩ := hw.addrOf_spec h1 h2
  have h6 := hw.v2p_eq h4 h5
  have h7 := hw.lt
  have h9 := c.pvOffset_lt
  have hlt : c.v2p (c.addrOf v p) < 2 ^ c.addressWidthBits := Nat.mod_lt _ (Nat.two_pow_pos _)
  rw [pageToAddr, Nat.shiftLeft_eq, h3, ← h6, Nat.mod_eq_of_lt hlt]
  generalize c.addrOf v p = z at h4 h5
  rw [v2p]
  rcases Nat.lt_or_ge (z + c.pvOffset) (2 ^ c.addressWidthBits) with h | h
  · have e1 : (z + c.pvOffset) % 2 ^ c.addressWidthBits = z + c.pvOffset := Nat.mod_eq_of_lt h
    have e2 : z + c.pvOffset + (2 ^ c.addressWidthBits - c.pvOffset) = z + 2 ^ c.addressWidthBits := by omega
    rw [e1, e2, Nat.add_mod_right, Nat.mod_eq_of_lt (by omega)]
  · have e1 : (z + c.pvOffset) % 2 ^ c.addressWidthBits = z + c.pvOffset - 2 ^ c.addressWidthBits := by
      rw [Nat.mod_eq_sub_mod h]
      exact Nat.mod_eq_of_lt (by omega)
    have e2 : z + c.pvOffset - 2 ^ c.addressWidthBits + (2 ^ c.addressWidthBits - c.pvOffset) = z := by omega
    rw [e1, e2, Nat.mod_eq_of_lt (by omega)]

end

/-- `a ^ (1 << n)`, for a multiple of `1 << n`. -/
theorem xor_two_pow (h : 2 ^ n ∣ x) : x ^^^ 1 <<< n = buddy x n := by
  obtain ⟨m, rfl⟩ := h
  have hpos := Nat.two_pow_pos n
  have h1 : (m ^^^ 1) / 2 = m / 2 := by rw [Nat.xor_div_two]; simp
  have h2 := Nat.xor_mod_two_eq (m := m) (n := 1)
  have hquot : (2 ^ n * m ^^^ 2 ^ n) / 2 ^ n = m ^^^ 1 := by
    rw [Nat.xor_div_two_pow, Nat.mul_div_cancel_left _ hpos, Nat.div_self hpos]
  have hrem : (2 ^ n * m ^^^ 2 ^ n) % 2 ^ n = 0 := by
    rw [Nat.xor_mod_two_pow, Nat.mul_mod_right, Nat.mod_self, Nat.xor_self]
  rw [Nat.shiftLeft_eq, Nat.one_mul, ← Nat.div_add_mod (2 ^ n * m ^^^ 2 ^ n) (2 ^ n), hquot, hrem, Nat.add_zero, buddy,
    Nat.mul_div_cancel_left _ hpos]
  split
  · rw [show m ^^^ 1 = m + 1 by omega, Nat.mul_add, Nat.mul_one]
  · rw [show m ^^^ 1 = m - 1 by omega, Nat.mul_sub, Nat.mul_one]

section

variable (hw : c.Window v e)

include hw

/-- The buddy that the code computes. -/
theorem Window.buddyGet_eq (h1 : c.addrToPage v ≤ p) (h2 : p < c.addrToPage e)
    (hb1 : c.addrToPage v ≤ buddy p k) (hb2 : buddy p k < c.addrToPage e) (hk : k < c.maxOrder - 1) (hp : 2 ^ k ∣ p) :
    c.buddyGet p k = buddy p k := by
  have hdvd := fun {q : Nat} (hq1 : c.addrToPage v ≤ q) (hq2 : q < c.addrToPage e) (j : Nat) (hj : j ≤ c.maxOrder - 1) =>
    hw.dvd_addrOf hq1 (Nat.le_of_lt hq2) hj
  have hshift : k + c.pageShift + 1 = k + 1 + c.pageShift := by omega
  have hpow : 2 ^ (k + c.pageShift) = 2 ^ k * 2 ^ c.pageShift := Nat.pow_add ..
  obtain ⟨h3, h4, -, -⟩ := hw.addrOf_spec h1 (Nat.le_of_lt h2)
  obtain ⟨h5, h6, -, h7⟩ := hw.addrOf_spec hb1 (Nat.le_of_lt hb2)
  have hx : c.addrOf v p ^^^ 1 <<< (k + c.pageShift) = c.addrOf v (buddy p k) := by
    rw [xor_two_pow ((hdvd h1 h2 k (Nat.le_of_lt hk)).2 hp)]
    rcases Buddy.buddy_cases hp with ⟨h8, hb⟩ | ⟨h8, h9, hb⟩
    · have h10 := (hdvd h1 h2 (k + 1) hk).2 h8
      rw [← hshift] at h10
      rw [Buddy.buddy_of_dvd h10]
      rw [hb, Nat.add_mul, ← hpow] at h5
      rw [hb]
      omega
    · have hbd : 2 ^ (k + 1) ∣ buddy p k := hb ▸ h9
      have h10 := (hdvd hb1 hb2 (k + 1) hk).2 hbd
      rw [← hshift] at h10
      have h11 : p = buddy p k + 2 ^ k := by omega
      have h12 : c.addrOf v p = c.addrOf v (buddy p k) + 2 ^ (k + c.pageShift) := by
        have h13 : p * 2 ^ c.pageShift = buddy p k * 2 ^ c.pageShift + 2 ^ (k + c.pageShift) := by
          rw [hpow, ← Nat.add_mul, ← h11]
        omega
      rw [h12, Buddy.buddy_add h10]
  rw [buddyGet, hw.pageToAddr_eq h1 (Nat.le_of_lt h2), hx, h7]

theorem Window.addrToPage_mono (h1 : v ≤ x) (h2 : x ≤ y) (h3 : y ≤ e) :
    c.addrToPage x ≤ c.addrToPage y := by
  rw [hw.addrToPage_eq h1 (by omega), hw.addrToPage_eq (by omega) h3]
  exact Nat.div_le_div_right (by omega)

/-- The first frame of a shadow is aligned to the largest block. -/
theorem Window.shadow_dvd (h1 : v ≤ x) (h2 : x ≤ e) (hx : c.shadowSize ∣ x) :
    2 ^ (c.maxOrder - 1) ∣ c.addrToPage x := by
  have hS := Nat.two_pow_pos c.pageShift
  have h3 := hw.addrToPage_mul h1 h2 (Nat.dvd_trans c.pageSize_dvd_shadowSize hx)
  have h4 : c.shadowSize ∣ c.addrToPage x * 2 ^ c.pageShift := by
    rw [h3]
    exact Nat.dvd_add hw.v2p_dvd (Nat.dvd_sub hx hw.v_dvd)
  rw [shadowSize_eq] at h4
  exact (Nat.mul_dvd_mul_iff_right hS).1 h4

/-- The page frames of a window have records. -/
theorem Window.addrToPage_le (h1 : v ≤ x) (h2 : x ≤ e) (hx : 2 ^ c.pageShift ∣ x) (hp : p < c.addrToPage x) :
    p < 2 ^ (c.vaddrWidth - c.pageShift) ∧ c.addrToPage x ≤ 2 ^ 31 := by
  have hS := Nat.two_pow_pos c.pageShift
  have h3 := hw.addrToPage_mul h1 h2 hx
  have h4 := hw.vaddr
  have h5 := hw.int
  constructor
  · rcases Nat.lt_or_ge c.vaddrWidth c.pageShift with h | h
    · have h6 : 2 ^ c.vaddrWidth < 2 ^ c.pageShift := Nat.pow_lt_pow_right (by decide) h
      have h7 : 1 * 2 ^ c.pageShift ≤ c.addrToPage x * 2 ^ c.pageShift := Nat.mul_le_mul_right _ (by omega)
      omega
    · have h6 : 2 ^ c.vaddrWidth = 2 ^ (c.vaddrWidth - c.pageShift) * 2 ^ c.pageShift := by
        rw [← Nat.pow_add, Nat.sub_add_cancel h]
      have h7 : c.addrToPage x ≤ 2 ^ (c.vaddrWidth - c.pageShift) := by
        apply Nat.le_of_mul_le_mul_right _ hS
        omega
      omega
  · have h6 : 2 ^ (31 + c.pageShift) = 2 ^ 31 * 2 ^ c.pageShift := Nat.pow_add ..
    apply Nat.le_of_mul_le_mul_right _ hS
    omega

theorem Window.getPageList_eq (h1 : c.addrToPage v ≤ p) (h2 : p ≤ c.addrToPage e) :
    c.getPageList (c.addrOf v p) = c.side p := by
  obtain ⟨h3, h4, h5, -⟩ := hw.addrOf_spec h1 h2
  rw [getPageList, side, hw.v2p_eq h4 h5, ← h3]
  by_cases h : 2 ^ 32 ≤ p * 2 ^ c.pageShift
  · rw [if_pos (by omega), if_pos h]
  · rw [if_neg (by omega), if_neg h]

/-- A region in its window, with the shadow of its start. -/
theorem Window.region (h1 : v ≤ st) (h2 : st ≤ tl) (h3 : tl ≤ e) (htl : 2 ^ c.pageShift ∣ tl) :
    c.Region (c.addrToPage st) (c.addrToPage tl) (c.addrToPage (down st c.shadowSize)) (c.addrToPage e) := by
  have hQ : 0 < c.shadowSize := Nat.two_pow_pos _
  have hve := hw.le
  have hd1 : v ≤ down st c.shadowSize := le_down hQ hw.v_dvd h1
  have hd2 := down_le st c.shadowSize
  have hlo := hw.addrToPage_mono (Nat.le_refl v) hd1 (by omega)
  have hlo' := hw.addrToPage_mono hd1 hd2 (by omega)
  have hhi := hw.addrToPage_mono (Nat.le_trans h1 h2) h3 (Nat.le_refl e)
  have hbuddy : ∀ p k, c.addrToPage st ≤ p → p < c.addrToPage tl → k < c.maxOrder - 1 → 2 ^ k ∣ p →
      c.addrToPage (down st c.shadowSize) ≤ buddy p k ∧ buddy p k < c.addrToPage e := by
    intro p k hp1 hp2 hk hp
    have hN := Nat.two_pow_pos (c.maxOrder - 1)
    -- the largest block around the page is in the shadow
    have hblock : 2 ^ (c.maxOrder - 1) ∣ down p (2 ^ (c.maxOrder - 1)) := down_dvd _ _
    have hself : Holds (down p (2 ^ (c.maxOrder - 1)), c.maxOrder - 1) p := ⟨down_le _ _, lt_down_add hN p⟩
    have hb := (Buddy.holds_buddy (e := (down p (2 ^ (c.maxOrder - 1)), c.maxOrder - 1)) hp hblock hk).2 hself
    obtain ⟨hb1, hb2⟩ := hb
    simp only at hb1 hb2
    have hlow := le_down hN (hw.shadow_dvd hd1 (by omega) (down_dvd _ _)) (Nat.le_trans hlo' hp1)
    have htop := hw.shadow_dvd hve (Nat.le_refl e) hw.e_dvd
    have hroom : down p (2 ^ (c.maxOrder - 1)) + 2 ^ (c.maxOrder - 1) ≤ c.addrToPage e := by
      have h4 := down_le p (2 ^ (c.maxOrder - 1))
      have h5 := Nat.le_of_dvd (by omega) (Nat.dvd_sub htop hblock)
      omega
    omega
  constructor
  · exact hlo'
  · exact hhi
  · rcases Nat.eq_zero_or_pos (c.addrToPage tl) with h | h
    · rw [h]
      exact Nat.zero_le _
    · exact (hw.addrToPage_le (Nat.le_trans h1 h2) h3 htl h).2
  · intro p _ hp
    have hlt := (hw.addrToPage_le (Nat.le_trans h1 h2) h3 htl hp).1
    have hfit := c.records_fit
    have h4 := (floor_spec (c := c) (x := 2 ^ (c.vaddrWidth - c.pageShift) * c.recordSize) (Nat.two_pow_pos c.pageShift)
      (by omega)).2.1
    have h5 : p * c.recordSize < 2 ^ (c.vaddrWidth - c.pageShift) * c.recordSize :=
      Nat.mul_lt_mul_of_pos_right hlt c.recordSize_pos
    exact Nat.lt_of_lt_of_le h5 h4
  · intro p hp1 hp2
    rw [hw.pageToAddr_eq (by omega) (by omega)]
    exact (hw.addrOf_spec (by omega) (by omega)).2.2.2
  · intro p hp1 hp2
    rw [hw.pageToAddr_eq (by omega) (by omega)]
    exact hw.getPageList_eq (by omega) (by omega)
  · intro p k hp1 hp2 hk hp
    rw [hw.pageToAddr_eq (by omega) (by omega)]
    exact (hw.dvd_addrOf (by omega) (by omega) (by omega)).2 hp
  · intro p k hp1 hp2 hk hp
    obtain ⟨h4, h5⟩ := hbuddy p k hp1 hp2 hk hp
    exact hw.buddyGet_eq (by omega) (by omega) (by omega) h5 hk hp
  · exact hbuddy

end

end PageConfig

namespace PageState

open PageConfig (Window down)

variable {c : PageConfig} {s s' : PageState} {l : PageList} {p x k j v e st cur tl a b lo hi : Nat} {Z : Prop}
  {free : PageList → Nat → List Nat}

/-! ## The order of a block -/

theorem ctz_spec {n : Nat} (hlt : x < 2 ^ n) : 2 ^ ctz x n ∣ x ∧ ∀ j, j ≤ n → 2 ^ j ∣ x → j ≤ ctz x n := by
  induction n generalizing x with
  | zero =>
    obtain rfl : x = 0 := by omega
    exact ⟨Nat.dvd_zero _, fun j hj _ => hj⟩
  | succ n ih =>
    rw [ctz]
    by_cases hx : x % 2 = 1
    · rw [if_pos hx]
      refine ⟨Nat.one_dvd x, fun j _ hj => ?_⟩
      cases j with
      | zero => exact Nat.le_refl 0
      | succ j =>
        have h1 : 2 ∣ x := Nat.dvd_trans (Dvd.intro_left _ (Nat.pow_succ ..).symm) hj
        omega
    · rw [if_neg hx]
      have heven : x = 2 * (x / 2) := by omega
      obtain ⟨h1, h2⟩ := ih (x := x / 2) (by omega)
      constructor
      · rw [Nat.pow_succ', heven, Nat.mul_div_cancel_left _ (by decide)]
        exact Nat.mul_dvd_mul_left 2 h1
      · intro j hjn hj
        cases j with
        | zero => exact Nat.zero_le _
        | succ j =>
          rw [Nat.pow_succ', heven] at hj
          exact Nat.succ_le_succ (h2 j (by omega) (Nat.dvd_of_mul_dvd_mul_left (by decide) hj))

/-- The size, in bits, of the block that is inserted at `cur`. -/
def blockBits (c : PageConfig) (cur tl : Nat) : Nat :=
  let sizeBits := Nat.log2 ((tl + (2 ^ c.addressWidthBits - cur)) % 2 ^ c.addressWidthBits)
  let alignBits := ctz cur c.addressWidthBits
  let sizeBits := if alignBits < sizeBits then alignBits else sizeBits
  let maxOrder := c.maxOrder + c.pageShift - 1
  if sizeBits > maxOrder then maxOrder else sizeBits

/-- It is aligned and fits, and no larger one of the orders that the lists have does. -/
theorem blockBits_fits (h : cur < tl) (hlt : tl < 2 ^ c.addressWidthBits) (hcur : 2 ^ c.pageShift ∣ cur)
    (htl : 2 ^ c.pageShift ∣ tl) :
    ∃ k, blockBits c cur tl = k + c.pageShift ∧ k ≤ c.maxOrder - 1 ∧ 2 ^ (k + c.pageShift) ∣ cur ∧
      cur + 2 ^ (k + c.pageShift) ≤ tl ∧
      ∀ n, n ≤ c.maxOrder - 1 + c.pageShift → 2 ^ n ∣ cur → cur + 2 ^ n ≤ tl → n ≤ k + c.pageShift := by
  have hM := c.maxOrder_pos
  have hwidth := c.shadow_lt
  have hdiff : (tl + (2 ^ c.addressWidthBits - cur)) % 2 ^ c.addressWidthBits = tl - cur := by
    rw [show tl + (2 ^ c.addressWidthBits - cur) = (tl - cur) + 2 ^ c.addressWidthBits by omega, Nat.add_mod_right,
      Nat.mod_eq_of_lt (by omega)]
  obtain ⟨hc1, hc2⟩ := ctz_spec (x := cur) (n := c.addressWidthBits) (by omega)
  have hlog : ∀ n, n ≤ Nat.log2 (tl - cur) ↔ 2 ^ n ≤ tl - cur := fun n => Nat.le_log2 (by omega)
  have hbits : ∀ n, n ≤ blockBits c cur tl ↔
      n ≤ Nat.log2 (tl - cur) ∧ n ≤ ctz cur c.addressWidthBits ∧ n ≤ c.maxOrder - 1 + c.pageShift := by
    intro n
    simp only [blockBits, hdiff]
    split_ifs <;> omega
  have hlargest : ∀ n, n ≤ c.maxOrder - 1 + c.pageShift → 2 ^ n ∣ cur → cur + 2 ^ n ≤ tl → n ≤ blockBits c cur tl := by
    intro n h1 h2 h3
    rw [hbits, hlog]
    exact ⟨by omega, hc2 n (by omega) h2, h1⟩
  obtain ⟨hb1, hb2, hb3⟩ := (hbits _).1 (Nat.le_refl (blockBits c cur tl))
  have hpage : cur + 2 ^ c.pageShift ≤ tl := by
    have := Nat.le_of_dvd (by omega) (Nat.dvd_sub htl hcur)
    omega
  have hshift : c.pageShift ≤ blockBits c cur tl := hlargest _ (by omega) hcur hpage
  obtain ⟨k, hk⟩ : ∃ k, blockBits c cur tl = k + c.pageShift := ⟨_, (Nat.sub_add_cancel hshift).symm⟩
  rw [hk] at hb1 hb2 hb3 hlargest
  have hfit := (hlog _).1 hb1
  exact ⟨k, hk, by omega, Nat.dvd_trans (Nat.pow_dvd_pow 2 hb2) hc1, by omega, hlargest⟩

/-- The same, of page frames. -/
theorem blockBits_spec (hw : c.Window v e) (h1 : v ≤ cur) (h2 : cur < tl) (h3 : tl ≤ e) (hcur : 2 ^ c.pageShift ∣ cur)
    (htl : 2 ^ c.pageShift ∣ tl) :
    ∃ k, blockBits c cur tl = k + c.pageShift ∧ k ≤ c.maxOrder - 1 ∧ 2 ^ k ∣ c.addrToPage cur ∧
      cur + 2 ^ (k + c.pageShift) ≤ tl ∧ c.addrToPage (cur + 2 ^ (k + c.pageShift)) = c.addrToPage cur + 2 ^ k ∧
      ∀ j, 2 ^ j ∣ c.addrToPage cur → j ≤ c.maxOrder - 1 → c.addrToPage cur + 2 ^ j ≤ c.addrToPage tl → j ≤ k := by
  have hS := Nat.two_pow_pos c.pageShift
  have hlt := hw.lt
  obtain ⟨k, hk, hktop, hkdvd, hfit, hlargest⟩ := blockBits_fits h2 (by omega) hcur htl
  have hmulcur := hw.addrToPage_mul h1 (by omega) hcur
  have hmultl := hw.addrToPage_mul (by omega) h3 htl
  have haddr : c.addrOf v (c.addrToPage cur) = cur := hw.addrOf_addrToPage h1 (by omega) hcur
  have hin1 := hw.addrToPage_mono (Nat.le_refl v) h1 (by omega)
  have hin2 := hw.addrToPage_mono h1 (Nat.le_trans (Nat.le_of_lt h2) h3) (Nat.le_refl e)
  have hdvd : ∀ j, j ≤ c.maxOrder - 1 → (2 ^ (j + c.pageShift) ∣ cur ↔ 2 ^ j ∣ c.addrToPage cur) := by
    intro j hj
    have := hw.dvd_addrOf hin1 hin2 hj
    rwa [haddr] at this
  have hblock : 2 ^ (k + c.pageShift) = 2 ^ k * 2 ^ c.pageShift := Nat.pow_add ..
  refine ⟨k, hk, hktop, (hdvd k hktop).1 hkdvd, hfit, ?_, ?_⟩
  · have h4 : 2 ^ c.pageShift ∣ cur + 2 ^ (k + c.pageShift) :=
      Nat.dvd_add hcur (Nat.pow_dvd_pow 2 (Nat.le_add_left ..))
    have h5 := hw.addrToPage_mul (x := cur + 2 ^ (k + c.pageShift)) (by omega) (by omega) h4
    apply Nat.eq_of_mul_eq_mul_right hS
    rw [h5, Nat.add_mul, hmulcur, ← hblock]
    omega
  · intro j hj1 hj2 hj3
    have h4 : j + c.pageShift ≤ k + c.pageShift := by
      apply hlargest _ (by omega) ((hdvd j hj2).2 hj1)
      have h5 := Nat.mul_le_mul_right (2 ^ c.pageShift) hj3
      rw [Nat.add_mul, hmulcur, hmultl, ← Nat.pow_add] at h5
      omega
    omega

/-! ## The free lists -/

/-- The next block of a region, in use. -/
theorem Core.extend {top : Nat} (h : Core c a cur lo hi s free []) (hcut : Cut a b (c.maxOrder - 1) top fun d =>
    IsFree free d ∨ d = (cur, k)) : Core c a top lo hi s free [(cur, k)] where
  links := h.links
  nodup := h.nodup
  side := h.side
  tiled := hcut.tiled.congr fun d => by rw [List.mem_singleton, or_comm]
  busy_nodup := List.nodup_singleton _
  busy_free := by
    intro d hd hdf
    rw [List.mem_singleton] at hd
    have := (h.tiled.inside d d.1 (.inr hdf) (Buddy.holds_self d)).2
    rw [hd] at this
    omega
  tag := h.tag
  free_tag := h.free_tag
  reduced := h.reduced

theorem insertLoop_succ {n : Nat} (hne : cur ≠ tl) : s.insertLoop c cur tl (n + 1) =
    match ((s.setSizeBits (c.addrToPage cur) c.addressWidthBits).setRefCnt (c.addrToPage cur) 0).earlyPageInsert c
        (c.getPageList cur) (c.addrToPage cur) (blockBits c cur tl - c.pageShift) with
    | none => none
    | some s => s.insertLoop c ((cur + 1 <<< blockBits c cur tl) % 2 ^ c.addressWidthBits) tl n := by
  rw [insertLoop, if_neg hne]
  rfl

/-- What is left of the region is cut into blocks. -/
theorem insertLoop_spec (hw : c.Window v e) (hr : c.Region a b lo hi) (hb : b = c.addrToPage tl) {n : Nat}
    (h1 : v ≤ cur) (h2 : cur ≤ tl) (h3 : tl ≤ e) (hcur : 2 ^ c.pageShift ∣ cur) (htl : 2 ^ c.pageShift ∣ tl)
    (hn : tl - cur ≤ n * 2 ^ c.pageShift) (ha : a ≤ c.addrToPage cur)
    (h : Core c a (c.addrToPage cur) lo hi s free [])
    (hcut : Cut a b (c.maxOrder - 1) (c.addrToPage cur) (IsFree free))
    (hlive : s.live = []) (hzero : Z → ∀ x, a ≤ x → (s.page x).refCnt = 0) :
    ∃ s' free', s.insertLoop c cur tl n = some s' ∧ Core c a b lo hi s' free' [] ∧ s'.live = [] ∧
      (Z → ∀ x, a ≤ x → (s'.page x).refCnt = 0) := by
  induction n generalizing s cur free with
  | zero =>
    have hend : cur = tl := by omega
    subst hend
    refine ⟨s, free, ?_, hb ▸ h, hlive, hzero⟩
    rw [insertLoop, if_pos rfl]
  | succ n ih =>
    by_cases hend : cur = tl
    · subst hend
      rw [insertLoop, if_pos rfl]
      exact ⟨s, free, rfl, hb ▸ h, hlive, hzero⟩
    · rw [insertLoop_succ hend]
      have hlt := hw.lt
      obtain ⟨k, hk, hktop, hdvd, hfit, hnext, hmax⟩ := blockBits_spec hw h1 (by omega) h3 hcur htl
      have hstep : 2 ^ c.pageShift ≤ 2 ^ (k + c.pageShift) := Nat.pow_le_pow_right (by decide) (Nat.le_add_left ..)
      have hcurb : c.addrToPage cur < b := by
        have h5 := hw.addrToPage_mono (x := cur + 2 ^ (k + c.pageShift)) (by omega) hfit h3
        have h6 := Nat.two_pow_pos k
        omega
      have hcut' := hcut.next ha hdvd hktop fun j hj1 hj2 hj3 => hmax j hj1 hj2 (hb ▸ hj3)
      rw [← hnext] at hcut'
      have hseam : c.addrToPage (cur + 2 ^ (k + c.pageShift)) ≤ b := by
        rw [hb]
        exact hw.addrToPage_mono (by omega) hfit h3
      have hcore := (h.extend hcut').setSizeBits.setRefCnt (c.addrToPage cur) 0
      have hnot : k < c.maxOrder - 1 → ¬ IsFree free (buddy (c.addrToPage cur) k, k) := by
        intro hk' hf
        exact hcut'.reduced hseam _ k hk' (.inr rfl) (.inl hf)
      have hside : c.getPageList cur = c.side (c.addrToPage cur) := by
        have h5 := hw.addrToPage_mono (Nat.le_refl v) h1 (by omega)
        have h6 := hw.addrToPage_mono h1 (Nat.le_trans h2 h3) (Nat.le_refl e)
        have := hw.getPageList_eq h5 h6
        rwa [hw.addrOf_addrToPage h1 (by omega) hcur] at this
      have hin := hcore.insert hnot
      have hbits : blockBits c cur tl - c.pageShift = k := by omega
      have hmod : (cur + 1 <<< blockBits c cur tl) % 2 ^ c.addressWidthBits = cur + 2 ^ (k + c.pageShift) := by
        rw [hk, Nat.shiftLeft_eq, Nat.one_mul, Nat.mod_eq_of_lt (by omega)]
      have hrest : tl - (cur + 2 ^ (k + c.pageShift)) ≤ n * 2 ^ c.pageShift := by
        rw [Nat.add_mul, Nat.one_mul] at hn
        omega
      generalize ht : (s.setSizeBits (c.addrToPage cur) c.addressWidthBits).setRefCnt (c.addrToPage cur) 0 = t at hin
      have hkept := pageInsert_kept t (c.side (c.addrToPage cur)) (c.addrToPage cur) k
      have hcut'' : Cut a b (c.maxOrder - 1) (c.addrToPage (cur + 2 ^ (k + c.pageShift)))
          (IsFree (setFree free (c.side (c.addrToPage cur)) k
            (c.addrToPage cur :: free (c.side (c.addrToPage cur)) k))) := by
        rw [funext fun d => propext (isFree_setFree_cons free (c.side (c.addrToPage cur)) (c.addrToPage cur) k d)]
        exact hcut'
      simp only [earlyPageInsert, if_pos (hr.record _ ha hcurb), hside, hbits, hmod]
      refine ih (by omega) hfit ?_ hrest (by omega) hin hcut'' ?_ ?_
      · exact Nat.dvd_add hcur (Nat.pow_dvd_pow 2 (Nat.le_add_left ..))
      · rw [hkept.live, ← ht]
        exact hlive
      · intro hz x hx
        rw [hkept.refCnt, ← ht, setRefCnt_page]
        split
        · rfl
        · rw [setSizeBits_page, if_neg (by assumption)]
          exact hzero hz x hx

/-- The region that `rt_page_init` gets: whole pages, whose shadow and its physical addresses do not wrap, with room for
the records. -/
structure RegionOk (c : PageConfig) (start tail : Nat) : Prop where
  start_dvd : 2 ^ c.pageShift ∣ start
  tail_dvd : 2 ^ c.pageShift ∣ tail
  lt : start < tail
  shadow : tail + c.shadowSize ≤ 2 ^ c.addressWidthBits
  phys_lt : c.v2p (down start c.shadowSize) + (c.floor tail c.shadowSize - down start c.shadowSize) <
    2 ^ c.addressWidthBits
  vaddr : c.v2p (down start c.shadowSize) + (c.floor tail c.shadowSize - down start c.shadowSize) ≤ 2 ^ c.vaddrWidth
  int : c.v2p (down start c.shadowSize) + (c.floor tail c.shadowSize - down start c.shadowSize) ≤
    2 ^ (31 + c.pageShift)
  room : start + initMprSize c start tail ≤ tail

theorem RegionOk.window (h : RegionOk c st tl) : Window c (down st c.shadowSize) (c.floor tl c.shadowSize) := by
  have hQ : 0 < c.shadowSize := Nat.two_pow_pos _
  obtain ⟨h1, h2, h3⟩ := PageConfig.floor_spec hQ h.shadow
  have h4 := PageConfig.down_le st c.shadowSize
  have h5 := h.lt
  have h6 := h.shadow
  exact ⟨by omega, PageConfig.down_dvd _ _, h1, by omega, h.phys_lt, h.vaddr, h.int⟩

/-- The records take whole pages. -/
theorem initMprSize_dvd (c : PageConfig) (st tl : Nat) : 2 ^ c.pageShift ∣ initMprSize c st tl := by
  have hW : 2 ^ c.pageShift ∣ 2 ^ c.addressWidthBits :=
    Nat.dvd_trans c.pageSize_dvd_shadowSize c.shadowSize_dvd_two_pow
  rw [initMprSize, Nat.dvd_mod_iff hW]
  apply Nat.dvd_add
  · exact Nat.dvd_sub_mod _
  · exact Nat.dvd_sub hW (Nat.dvd_sub_mod _)

theorem initMprSize_pos (h : RegionOk c st tl) : 0 < initMprSize c st tl := by
  have hw := h.window
  have hle := hw.le
  have hS := Nat.two_pow_pos c.pageShift
  have hfit := c.records_fit
  have hve : 2 ^ c.pageShift ∣ c.floor tl c.shadowSize := Nat.dvd_trans c.pageSize_dvd_shadowSize hw.e_dvd
  have hlt : down st c.shadowSize < c.floor tl c.shadowSize := by
    have h1 : tl ≤ c.floor tl c.shadowSize := (PageConfig.floor_spec (Nat.two_pow_pos _) h.shadow).2.1
    have h2 := PageConfig.down_le st c.shadowSize
    have h3 := h.lt
    omega
  have hlo := hw.addrToPage_mul (Nat.le_refl _) hle (Nat.dvd_trans c.pageSize_dvd_shadowSize hw.v_dvd)
  have hhi := hw.addrToPage_mul hle (Nat.le_refl _) hve
  have hpages : c.addrToPage (down st c.shadowSize) < c.addrToPage (c.floor tl c.shadowSize) := by
    apply Nat.lt_of_mul_lt_mul_right (a := 2 ^ c.pageShift)
    omega
  have hmax := (hw.addrToPage_le hle (Nat.le_refl _) hve (p := c.addrToPage (c.floor tl c.shadowSize) - 1) (by omega)).1
  have hhi_le : c.addrToPage (c.floor tl c.shadowSize) ≤ 2 ^ (c.vaddrWidth - c.pageShift) := by omega
  have hlo_le : c.addrToPage (down st c.shadowSize) ≤ 2 ^ (c.vaddrWidth - c.pageShift) := by omega
  have hrec : ∀ p, p ≤ 2 ^ (c.vaddrWidth - c.pageShift) → c.record p = c.mprStart + p * c.recordSize := by
    intro p hp
    have h1 := Nat.mul_le_mul_right c.recordSize hp
    exact Nat.mod_eq_of_lt (by omega)
  have h1 := Nat.mul_le_mul_right c.recordSize hhi_le
  have h2 := Nat.mul_lt_mul_of_pos_right hpages c.recordSize_pos
  have h3 := (PageConfig.floor_spec (c := c) (x := c.record (c.addrToPage (c.floor tl c.shadowSize))) hS
    (by rw [hrec _ hhi_le]; omega)).2
  have h4 := PageConfig.down_le (c.record (c.addrToPage (down st c.shadowSize))) (2 ^ c.pageShift)
  rw [hrec _ hhi_le] at h3
  rw [hrec _ hlo_le] at h4
  simp only [initMprSize, PageConfig.archPageSize, hrec _ hhi_le, hrec _ hlo_le]
  rw [Nat.mod_eq_sub_mod (by omega), Nat.mod_eq_of_lt (by omega)]
  omega

/-- The first address after the records. -/
def managedStart (c : PageConfig) (st tl : Nat) : Nat := st + initMprSize c st tl

/-- A region with nothing allocated: the page frames after the records are cut into free blocks. -/
theorem installed (h : RegionOk c st tl) (s : PageState) : ∃ s0 free, s.install c st tl = some s0 ∧
    Core c (c.addrToPage (managedStart c st tl)) (c.addrToPage tl)
      (c.addrToPage (down (managedStart c st tl) c.shadowSize)) (c.addrToPage (c.floor tl c.shadowSize)) s0 free [] ∧
    s0.live = [] ∧ ((∀ x, c.addrToPage (managedStart c st tl) ≤ x → (s.page x).refCnt = 0) →
      ∀ x, c.addrToPage (managedStart c st tl) ≤ x → (s0.page x).refCnt = 0) := by
  have hw := h.window
  have hQ : 0 < c.shadowSize := Nat.two_pow_pos _
  have hS := Nat.two_pow_pos c.pageShift
  have hSQ := Nat.le_of_dvd hQ c.pageSize_dvd_shadowSize
  obtain ⟨hf1, hf2, hf3⟩ := PageConfig.floor_spec hQ h.shadow
  have hdown := PageConfig.down_le st c.shadowSize
  have hlt := h.lt
  have hshadow := h.shadow
  have hroom : managedStart c st tl ≤ tl := h.room
  have hstm : st ≤ managedStart c st tl := Nat.le_add_right ..
  have hdvd : 2 ^ c.pageShift ∣ managedStart c st tl := Nat.dvd_add h.start_dvd (initMprSize_dvd c st tl)
  -- the start is rounded to itself
  have hstart : down ((st + (2 ^ c.pageShift - 1)) % 2 ^ c.addressWidthBits) (2 ^ c.pageShift) = st := by
    rw [Nat.mod_eq_of_lt (by omega)]
    have h1 := PageConfig.le_down hS h.start_dvd (show st ≤ st + (2 ^ c.pageShift - 1) by omega)
    have h2 := PageConfig.down_le (st + (2 ^ c.pageShift - 1)) (2 ^ c.pageShift)
    by_contra hne
    have h3 := Nat.le_of_dvd (by omega) (Nat.dvd_sub (PageConfig.down_dvd (st + (2 ^ c.pageShift - 1)) _) h.start_dvd)
    omega
  have htail : down tl (2 ^ c.pageShift) = tl := PageConfig.down_of_dvd h.tail_dvd
  have hend : (st + initMprSize c st tl) % 2 ^ c.addressWidthBits = managedStart c st tl :=
    Nat.mod_eq_of_lt (by rw [managedStart] at hroom; omega)
  have hr := hw.region (Nat.le_trans (by omega) (Nat.le_refl (managedStart c st tl))) hroom hf2 h.tail_dvd
  simp only [install, PageConfig.archPageSize, hstart, htail, if_neg (show ¬ tl ≤ st by omega), hend, installPage]
  have hfuel : tl - managedStart c st tl ≤ 2 ^ (c.addressWidthBits - c.pageShift) * 2 ^ c.pageShift := by
    have := c.shadow_lt
    rw [← Nat.pow_add, Nat.sub_add_cancel (by omega)]
    omega
  generalize ht : mark c (mark c _ _ _) _ _ = t
  have htag : ∀ x, c.addrToPage (down (managedStart c st tl) c.shadowSize) ≤ x →
      x < c.addrToPage (c.floor tl c.shadowSize) → (t.page x).sizeBits = c.addressWidthBits := by
    intro x h1 h2
    have h3 := hw.addrToPage_mono (x := st) hdown hstm (by omega)
    rw [← ht]
    simp only [mark]
    split_ifs <;> first | rfl | omega
  have href : ∀ x, (t.page x).refCnt = (s.page x).refCnt := by
    intro x
    rw [← ht]
    simp only [mark]
    split_ifs <;> rfl
  have hcore : Core c (c.addrToPage (managedStart c st tl)) (c.addrToPage (managedStart c st tl))
      (c.addrToPage (down (managedStart c st tl) c.shadowSize)) (c.addrToPage (c.floor tl c.shadowSize)) t
      (fun _ _ => []) [] := by
    have hnone : ∀ d, ¬ IsFree (fun _ _ => []) d := by
      rintro d ⟨l, hd⟩
      cases hd
    constructor
    · intro l k _
      rw [← ht]
      rfl
    · exact fun _ _ => List.nodup_nil
    · intro l k p hp
      cases hp
    · apply (Cut.start (c.addrToPage (managedStart c st tl)) (c.addrToPage tl) (c.maxOrder - 1)).tiled.congr
      intro d
      simp [hnone d]
    · exact List.nodup_nil
    · intro d hd
      cases hd
    · intro x h1 h2 h3
      rw [htag x h1 h2] at h3
      have := c.maxOrder_le
      omega
    · intro l k p hp
      cases hp
    · intro p k _ hp
      exact absurd hp (hnone _)
  have hcut : Cut (c.addrToPage (managedStart c st tl)) (c.addrToPage tl) (c.maxOrder - 1)
      (c.addrToPage (managedStart c st tl)) (IsFree fun _ _ => []) := by
    have he : (IsFree fun _ _ => []) = fun _ => False := by
      funext d
      simp [IsFree]
    rw [he]
    exact Cut.start ..
  refine insertLoop_spec (s := t) hw hr rfl (by omega) hroom hf2 hdvd h.tail_dvd hfuel (Nat.le_refl _) hcore hcut ?_ ?_
  · rw [← ht]
    rfl
  · intro hz x hx
    rw [href]
    exact hz x hx

end PageState

end RtThread
