import Mathlib.Tactic.Ring
import RtThread.Drivers.ClkPll

/-!
# The settings that are computed for a rate

What `rk_pll_clk_set_by_auto` computes from the 24 MHz of the oscillator. The loops find post dividers from 16.33 MHz on; above
2000 MHz nothing is refused; and the fraction is shifted in 32 bits, which keep the lowest 8 bits of what is below a MHz.
-/

namespace RtThread.ClkPll

/-- A setting for the rate `d`: it fits its fields, the frequency of the VCO is in range, and the frequency that the dividers
give, multiplied by `refdiv * 2 ^ 24`, is less than 2 Hz from it. -/
structure Accurate (d : Nat) (r : RateTable) : Prop extends InRange r where
  fbdiv_pos : 0 < r.fbdiv
  vco_min : minFoutvcoFreq ≤ d * r.postdiv1 * r.postdiv2
  vco_max : d * r.postdiv1 * r.postdiv2 ≤ maxFoutvcoFreq
  above : d * r.postdiv1 * r.postdiv2 * (r.refdiv * 2 ^ 24) <
    24 * mhz * (r.fbdiv * 2 ^ 24 + r.frac) + 2 * (r.refdiv * 2 ^ 24)
  below : 24 * mhz * (r.fbdiv * 2 ^ 24 + r.frac) <
    d * r.postdiv1 * r.postdiv2 * (r.refdiv * 2 ^ 24) + 2 * (r.refdiv * 2 ^ 24)

/-- The least first divider with which the rate can be brought to the VCO's, and the least second one for it. -/
structure Dividers (d p1 p2 : Nat) : Prop where
  p1_pos : 0 < p1
  p2_pos : 0 < p2
  p2_le : p2 ≤ 7
  p1_le : p1 ≤ 7
  vco_min : minFoutvcoFreq ≤ d * p1 * p2
  least1 : d * (p1 - 1) * 7 < minFoutvcoFreq
  least2 : d * p1 * (p2 - 1) < minFoutvcoFreq

variable {d p1 p2 : Nat} {r : RateTable}

/-- The least multiple of `d` that reaches `n`. -/
theorem exists_least_mul {n k : Nat} (hk : n ≤ d * k) (hn : 0 < n) : ∃ p, 0 < p ∧ p ≤ k ∧ n ≤ d * p ∧ d * (p - 1) < n := by
  induction k with
  | zero => omega
  | succ k ih =>
    by_cases h : n ≤ d * k
    · obtain ⟨p, hp, hle, hmin, hleast⟩ := ih h
      exact ⟨p, hp, Nat.le_succ_of_le hle, hmin, hleast⟩
    · exact ⟨k + 1, Nat.succ_pos k, Nat.le_refl _, hk, Nat.lt_of_not_le h⟩

theorem exists_dividers (h : minFoutvcoFreq ≤ 49 * d) : ∃ p1 p2, Dividers d p1 p2 := by
  obtain ⟨p1, hpos1, hle1, hmin1, hleast1⟩ := exists_least_mul (d := d * 7) (k := 7) (by omega) (by decide : 0 < minFoutvcoFreq)
  rw [Nat.mul_right_comm] at hmin1 hleast1
  obtain ⟨p2, hpos2, hle2, hmin2, hleast2⟩ := exists_least_mul hmin1 (by decide)
  exact ⟨p1, p2, hpos1, hpos2, hle2, hle1, hmin2, hleast1, hleast2⟩

theorem postdivs_getElem : ∀ j (hj : j < postdivs.length), postdivs[j] = (j / 7 + 1, j % 7 + 1) := by
  decide

theorem Dividers.vco_max (h : Dividers d p1 p2) (hd : d ≤ maxFoutvcoFreq) : d * p1 * p2 ≤ maxFoutvcoFreq := by
  obtain ⟨hpos1, hpos2, hle2, hle1, -, hleast1, hleast2⟩ := h
  unfold minFoutvcoFreq maxFoutvcoFreq mhz at *
  obtain ⟨p1, rfl⟩ := Nat.exists_eq_succ_of_ne_zero (Nat.ne_of_gt hpos1)
  obtain ⟨p2, rfl⟩ := Nat.exists_eq_succ_of_ne_zero (Nat.ne_of_gt hpos2)
  rw [Nat.succ_sub_one] at hleast1 hleast2
  rw [Nat.mul_succ]
  rcases Nat.eq_zero_or_pos p2 with rfl | h2
  · -- One step of the first divider is at most the rate.
    rcases Nat.eq_zero_or_pos p1 with rfl | h1
    · omega
    · have : d * 1 ≤ d * p1 := Nat.mul_le_mul_left d h1
      rw [Nat.mul_succ]
      omega
  · have : d * p1.succ * 1 ≤ d * p1.succ * p2 := Nat.mul_le_mul_left _ h2
    omega

/-- The loops stop at the least dividers. -/
theorem rkPllClkSetPostdiv_dividers (h : Dividers d p1 p2) (hd : d ≤ maxFoutvcoFreq) :
    rkPllClkSetPostdiv d (d % 2 ^ 32) = (p1, p2, d * p1 * p2) := by
  have hmax := h.vco_max hd
  obtain ⟨hpos1, hpos2, hle2, hle1, hmin, hleast1, hleast2⟩ := h
  unfold rkPllClkSetPostdiv
  split
  next hlt =>
    have hlen : postdivs.length = 49 := by decide
    have hfind : (postdivs.find? fun p => minFoutvcoFreq ≤ d * p.1 * p.2 ∧ d * p.1 * p.2 ≤ maxFoutvcoFreq) = some (p1, p2) := by
      refine List.find?_eq_some_iff_getElem.mpr ⟨by simp [hmin, hmax], 7 * (p1 - 1) + (p2 - 1), by omega, ?_, fun j hj => ?_⟩
      · rw [postdivs_getElem]
        ext <;> dsimp only <;> omega
      · rw [postdivs_getElem]
        have hsmall : d * (j / 7 + 1) * (j % 7 + 1) < minFoutvcoFreq := by
          rcases Nat.lt_or_ge (j / 7 + 1) p1 with h1 | h1
          · calc d * (j / 7 + 1) * (j % 7 + 1) ≤ d * (p1 - 1) * 7 :=
                  Nat.mul_le_mul (Nat.mul_le_mul_left d (by omega)) (by omega)
              _ < minFoutvcoFreq := hleast1
          · calc d * (j / 7 + 1) * (j % 7 + 1) ≤ d * p1 * (p2 - 1) :=
                  Nat.mul_le_mul (Nat.mul_le_mul_left d (by omega)) (by omega)
              _ < minFoutvcoFreq := hleast2
        simp [Nat.not_le_of_lt hsmall]
    rw [hfind]
  next hge =>
    have h1 : p1 = 1 := by
      by_contra hne
      have : d * 1 ≤ d * (p1 - 1) := Nat.mul_le_mul_left d (by omega)
      omega
    have h2 : p2 = 1 := by
      subst h1
      by_contra hne
      have : d * 1 * 1 ≤ d * 1 * (p2 - 1) := Nat.mul_le_mul_left _ (by omega)
      omega
    subst h1 h2
    rw [Nat.mul_one, Nat.mul_one, Nat.mod_eq_of_lt (by unfold maxFoutvcoFreq mhz at hd; omega)]

/-- Below 16.33 MHz the loops find nothing. -/
theorem rkPllClkSetPostdiv_low (h : 49 * d < minFoutvcoFreq) : rkPllClkSetPostdiv d (d % 2 ^ 32) = (8, 8, d % 2 ^ 32) := by
  unfold rkPllClkSetPostdiv
  rw [if_pos (by omega)]
  have hnone : (postdivs.find? fun p => minFoutvcoFreq ≤ d * p.1 * p.2 ∧ d * p.1 * p.2 ≤ maxFoutvcoFreq) = none := by
    refine List.find?_eq_none.mpr fun p hp => ?_
    obtain ⟨hp1, hp2⟩ := mem_postdivs hp
    have : d * p.1 * p.2 ≤ d * 7 * 7 := Nat.mul_le_mul (Nat.mul_le_mul_left d (by omega)) (by omega)
    have : d * p.1 * p.2 < minFoutvcoFreq := by omega
    simp [Nat.not_le_of_lt this]
  rw [hnone]

/-- The setting for dividers that bring the rate to the VCO's. -/
def settingOf (p1 p2 vco : Nat) : RateTable :=
  let g := Nat.gcd 24 (vco / mhz)
  let frac := vco % mhz % 256 * 2 ^ 24 / (g * mhz)
  ⟨0, vco / mhz / g, p1, 24 / g, p2, if 0 < frac then 0 else 1, frac⟩

theorem rkPllClkSetByAuto_eq (h0 : d ≠ 0) (h24 : d ≠ 24 * mhz) (h : Dividers d p1 p2) (hd : d ≤ maxFoutvcoFreq) :
    rkPllClkSetByAuto (24 * mhz) d = some (some (settingOf p1 p2 (d * p1 * p2))) := by
  have hmin := h.vco_min
  have hpos : 0 < d * p1 * p2 / mhz := Nat.div_pos (by unfold minFoutvcoFreq mhz at *; omega) (by decide)
  have hg := Nat.gcd_dvd_left 24 (d * p1 * p2 / mhz)
  have hnz : ¬ (24 * mhz = 0 ∨ d = 0 ∨ d = 24 * mhz) := by
    simpa [h0, mhz] using h24
  rw [rkPllClkSetByAuto, if_neg hnz, rkPllClkSetPostdiv_dividers h hd]
  dsimp only
  rw [Nat.mul_div_cancel 24 (by decide), gcd_eq hpos, Option.map_some, settingOf]
  generalize hgdef : Nat.gcd 24 (d * p1 * p2 / mhz) = g at hg ⊢
  have hgpos : 0 < g := Nat.pos_of_dvd_of_pos hg (by decide)
  have hfin : 24 * mhz / (24 / g) = g * mhz := by
    obtain ⟨q, hq⟩ := hg
    have hqpos : 0 < q := Nat.pos_of_ne_zero fun h => by simp [h] at hq
    rw [hq, Nat.mul_div_cancel_left q hgpos, Nat.mul_right_comm, Nat.mul_div_cancel _ hqpos]
  have hshift (x : Nat) : x * 2 ^ 24 % 2 ^ 32 = x % 256 * 2 ^ 24 := Nat.mul_mod_mul_right (2 ^ 24) x 256
  split
  next hwhole =>
    have hrem : d * p1 * p2 % mhz = 0 := by
      rw [← hwhole.2, Nat.mul_assoc, Nat.mul_right_comm, Nat.mul_mod_left]
    simp [hrem]
  next =>
    have hlt : d * p1 * p2 % mhz % 256 * 2 ^ 24 / (g * mhz) < 2 ^ 32 := by
      refine Nat.lt_of_le_of_lt (Nat.div_le_self _ _) ?_
      omega
    rw [hfin, hshift, Nat.mod_eq_of_lt hlt]

/-- A comparison with a slack, after something was added to both sides and they were multiplied. -/
theorem lt_add_scaled {a b c a' b' c' k q : Nat} (hq : 0 < q) (ha : a = (k + a') * q) (hb : b = (k + b') * q) (hc : c = c' * q) :
    a < b + c ↔ a' < b' + c' := by
  rw [ha, hb, hc, ← Nat.add_mul, Nat.mul_lt_mul_right hq, Nat.add_assoc, Nat.add_lt_add_iff_left]

/-- The setting is accurate if and only if the shift drops nothing. -/
theorem accurate_iff (h : Dividers d p1 p2) (hd : d ≤ maxFoutvcoFreq) :
    Accurate d (settingOf p1 p2 (d * p1 * p2)) ↔ d * p1 * p2 % mhz < 256 := by
  have hmax := h.vco_max hd
  have hmin := h.vco_min
  generalize hv : d * p1 * p2 = vco at hmax hmin
  have hg := Nat.gcd_dvd_left 24 (vco / mhz)
  have hgv := Nat.gcd_dvd_right 24 (vco / mhz)
  unfold settingOf
  generalize Nat.gcd 24 (vco / mhz) = g at hg hgv ⊢
  have hgpos : 0 < g := Nat.pos_of_dvd_of_pos hg (by decide)
  have hgle : g ≤ 24 := Nat.le_of_dvd (by decide) hg
  obtain ⟨n, hn⟩ := hgv
  obtain ⟨q, hq⟩ := hg
  have hqpos : 0 < q := Nat.pos_of_ne_zero fun h => by simp [h] at hq
  have hnpos : 0 < n := Nat.pos_of_ne_zero fun h => by
    rw [h, Nat.mul_zero] at hn
    have := Nat.lt_of_div_eq_zero (by decide) hn
    unfold minFoutvcoFreq mhz at *
    omega
  have hdiv : 24 / g = q := by rw [hq, Nat.mul_div_cancel_left q hgpos]
  have hn' : vco / mhz / g = n := by rw [hn, Nat.mul_div_cancel_left n hgpos]
  have hnle : n ≤ g * n := Nat.le_mul_of_pos_left n hgpos
  have hqle : q ≤ g * q := Nat.le_mul_of_pos_left q hgpos
  have hvco : mhz * (vco / mhz) + vco % mhz = vco := Nat.div_add_mod vco mhz
  rw [hn] at hvco hn' ⊢
  dsimp only
  rw [hdiv, hn']
  generalize hx : vco % mhz = x at hvco ⊢
  have hxlt : x < mhz := hx ▸ Nat.mod_lt _ (by decide)
  generalize hf : x % 256 * 2 ^ 24 / (g * mhz) = f
  have hgm : mhz ≤ g * mhz := Nat.le_mul_of_pos_left mhz hgpos
  have hgm' : g * mhz ≤ 24 * mhz := Nat.mul_le_mul_right mhz hgle
  have hlow : g * mhz * f ≤ x % 256 * 2 ^ 24 := hf ▸ Nat.mul_div_le _ _
  have hupp : x % 256 * 2 ^ 24 < g * mhz * f + g * mhz := by
    rw [← hf, ← Nat.mul_succ]
    exact Nat.lt_mul_div_succ _ (by omega)
  have hfle : 1000000 * f ≤ g * mhz * f := Nat.mul_le_mul_right f hgm
  -- Both sides of the comparison are multiples of `refdiv`.
  have hgives : 24 * mhz * (n * 2 ^ 24 + f) = (mhz * (g * n) * 2 ^ 24 + g * mhz * f) * q := by
    calc 24 * mhz * (n * 2 ^ 24 + f) = g * q * mhz * (n * 2 ^ 24 + f) := by rw [← hq]
      _ = _ := by ring
  have hwants : vco * (q * 2 ^ 24) = (mhz * (g * n) * 2 ^ 24 + x * 2 ^ 24) * q := by
    rw [← hvco]
    ring
  have hslack : 2 * (q * 2 ^ 24) = 2 ^ 25 * q := by ring
  have hmhz : mhz = 1000000 := rfl
  have hmax' : vco ≤ 2000 * mhz := hmax
  have hgn : g * n ≤ 2000 := by
    have : mhz * (g * n) ≤ mhz * 2000 := by omega
    exact Nat.le_of_mul_le_mul_left this (by decide)
  constructor
  · intro hacc
    have habove : vco * (q * 2 ^ 24) < 24 * mhz * (n * 2 ^ 24 + f) + 2 * (q * 2 ^ 24) := hv ▸ hacc.above
    have := (lt_add_scaled hqpos hwants hgives hslack).mp habove
    omega
  · intro hlt
    rw [Nat.mod_eq_of_lt hlt] at hlow hupp
    have hg25 : g * mhz ≤ 2 ^ 25 := Nat.le_trans hgm' (by decide)
    have habove := (lt_add_scaled hqpos hwants hgives hslack).mpr (Nat.lt_of_lt_of_le hupp (Nat.add_le_add_left hg25 _))
    have hbelow := (lt_add_scaled hqpos hgives hwants hslack).mpr (Nat.lt_of_le_of_lt hlow (Nat.lt_add_of_pos_right (by decide)))
    have hrange : InRange ⟨0, n, p1, q, p2, if 0 < f then 0 else 1, f⟩ :=
      ⟨by dsimp only; omega, ⟨h.p1_pos, Nat.lt_succ_of_le h.p1_le⟩, ⟨hqpos, by dsimp only; omega⟩,
        ⟨h.p2_pos, Nat.lt_succ_of_le h.p2_le⟩, by dsimp only; omega⟩
    exact ⟨hrange, hnpos, hv ▸ hmin, hv ▸ hmax, hv ▸ habove, hv ▸ hbelow⟩

/-- The search ends with `RT_NULL` or an accurate setting if and only if the rate is 0 or the oscillator's, or it is in the
range of the dividers and the VCO's frequency for it is less than 256 Hz above a whole number of MHz. -/
theorem rkPllClkSetByAuto_iff (d : Nat) :
    (∃ o, rkPllClkSetByAuto (24 * mhz) d = some o ∧ ∀ r ∈ o, Accurate d r) ↔
      d = 0 ∨ d = 24 * mhz ∨ d ≤ maxFoutvcoFreq ∧ ∃ p1 p2, Dividers d p1 p2 ∧ d * p1 * p2 % mhz < 256 := by
  by_cases hnull : d = 0 ∨ d = 24 * mhz
  · refine iff_of_true ⟨none, ?_, by simp⟩ (by tauto)
    rw [rkPllClkSetByAuto, if_pos (Or.inr hnull)]
  obtain ⟨h0, h24⟩ := not_or.mp hnull
  have hnz : ¬ (24 * mhz = 0 ∨ d = 0 ∨ d = 24 * mhz) := by
    simpa [h0, mhz] using h24
  constructor
  · rintro ⟨o, ho, hacc⟩
    refine Or.inr (Or.inr ?_)
    by_cases hlow : 49 * d < minFoutvcoFreq
    · rw [rkPllClkSetByAuto, if_neg hnz, rkPllClkSetPostdiv_low hlow] at ho
      obtain ⟨g, -, rfl⟩ := Option.map_eq_some_iff.mp ho
      split at hacc
      all_goals exact absurd (hacc _ rfl).postdiv1.2 (by dsimp only; omega)
    · obtain ⟨p1, p2, hdiv⟩ := exists_dividers (Nat.not_lt.mp hlow)
      have hd : d ≤ maxFoutvcoFreq := by
        by_contra hhigh
        have hpost : rkPllClkSetPostdiv d (d % 2 ^ 32) = (1, 1, d % 2 ^ 32) :=
          if_neg (by unfold maxFoutvcoFreq minFoutvcoFreq mhz at *; omega)
        rw [rkPllClkSetByAuto, if_neg hnz, hpost] at ho
        obtain ⟨g, -, rfl⟩ := Option.map_eq_some_iff.mp ho
        split at hacc
        all_goals exact hhigh (by simpa using (hacc _ rfl).vco_max)
      rw [rkPllClkSetByAuto_eq h0 h24 hdiv hd] at ho
      cases ho
      exact ⟨hd, p1, p2, hdiv, (accurate_iff hdiv hd).mp (hacc _ rfl)⟩
  · rintro (h | h | ⟨hd, p1, p2, hdiv, hlt⟩)
    · exact absurd h h0
    · exact absurd h h24
    · refine ⟨_, rkPllClkSetByAuto_eq h0 h24 hdiv hd, fun r hr => ?_⟩
      cases hr
      exact (accurate_iff hdiv hd).mpr hlt

/-- For 16 MHz no dividers are found, and both stay at 8. -/
theorem no_dividers_found : (rkPllClkSetByAuto (24 * mhz) (16 * mhz)).map (Option.map fun r => (r.postdiv1, r.postdiv2)) =
    some (some (8, 8)) := by
  decide

end RtThread.ClkPll
