import Mathlib.Algebra.Order.Group.Nat
import Mathlib.Data.Nat.Bitwise

/-!
# Buddies

A block `(p, k)` has the `2 ^ k` cells from `p` on, and `p` is a multiple of `2 ^ k`. Two blocks of one order whose union
is a block are buddies. A set of blocks tiles a set of cells (`Tiled`); splitting a block and merging two buddies keep
that, and a tiling without a pair of buddies is the only one (`Tiled.unique`).
-/

namespace Buddy

/-- The cells of a block. -/
def Holds (d : Nat × Nat) (x : Nat) : Prop := d.1 ≤ x ∧ x < d.1 + 2 ^ d.2

/-- The other half of the block of order `k + 1` that `(p, k)` is a half of. -/
def buddy (p k : Nat) : Nat := if p / 2 ^ k % 2 = 0 then p + 2 ^ k else p - 2 ^ k

variable {p q x y a b s j k top : Nat} {d e : Nat × Nat} {F F' : Nat → Prop} {B B' : Nat × Nat → Prop}

theorem holds_self (d : Nat × Nat) : Holds d d.1 := ⟨Nat.le_refl _, Nat.lt_add_of_pos_right (Nat.two_pow_pos _)⟩

/-! ## Aligned blocks -/

/-- A block has the cells with its quotient. -/
theorem holds_iff (hd : 2 ^ d.2 ∣ d.1) : Holds d x ↔ x / 2 ^ d.2 = d.1 / 2 ^ d.2 := by
  obtain ⟨m, hm⟩ := hd
  have hpos := Nat.two_pow_pos d.2
  rw [Holds, hm, Nat.mul_div_cancel_left _ hpos, Nat.div_eq_iff hpos, Nat.mul_comm m]
  omega

/-- Of two blocks with a common cell, the one of the smaller order is part of the other. -/
theorem holds_of_le (hd : 2 ^ d.2 ∣ d.1) (he : 2 ^ e.2 ∣ e.1) (hle : d.2 ≤ e.2) (hdx : Holds d x) (hex : Holds e x)
    (hdy : Holds d y) : Holds e y := by
  rw [holds_iff hd] at hdx hdy
  rw [holds_iff he] at hex ⊢
  have hpow : 2 ^ e.2 = 2 ^ d.2 * 2 ^ (e.2 - d.2) := by rw [← Nat.pow_add, Nat.add_sub_cancel' hle]
  rw [← hex, hpow, ← Nat.div_div_eq_div_mul, ← Nat.div_div_eq_div_mul, hdx, hdy]

/-- Blocks of one order with a common cell are equal. -/
theorem eq_of_holds (hd : 2 ^ d.2 ∣ d.1) (he : 2 ^ e.2 ∣ e.1) (hk : d.2 = e.2) (hdx : Holds d x) (hex : Holds e x) :
    d = e := by
  rw [holds_iff hd] at hdx
  rw [holds_iff he, ← hk, hdx] at hex
  have he' : 2 ^ d.2 ∣ e.1 := hk ▸ he
  refine Prod.ext ?_ hk
  calc d.1 = d.1 / 2 ^ d.2 * 2 ^ d.2 := (Nat.div_mul_cancel hd).symm
    _ = e.1 / 2 ^ d.2 * 2 ^ d.2 := by rw [hex]
    _ = e.1 := Nat.div_mul_cancel he'

theorem dvd_of_le (h : 2 ^ k ∣ p) (hle : j ≤ k) : 2 ^ j ∣ p := Nat.dvd_trans (Nat.pow_dvd_pow 2 hle) h

/-! ## Buddies -/

/-- The two halves of a block. -/
theorem buddy_cases (h : 2 ^ k ∣ p) :
    2 ^ (k + 1) ∣ p ∧ buddy p k = p + 2 ^ k ∨
      2 ^ k ≤ p ∧ 2 ^ (k + 1) ∣ p - 2 ^ k ∧ buddy p k = p - 2 ^ k := by
  obtain ⟨m, rfl⟩ := h
  have hpos := Nat.two_pow_pos k
  rw [buddy, Nat.mul_div_cancel_left _ hpos, Nat.pow_succ]
  rcases Nat.mod_two_eq_zero_or_one m with hm | hm
  · left
    refine ⟨Nat.mul_dvd_mul_left _ (Nat.dvd_of_mod_eq_zero hm), if_pos hm⟩
  · right
    obtain ⟨n, rfl⟩ : ∃ n, m = 2 * n + 1 := ⟨m / 2, by omega⟩
    rw [Nat.mul_add, Nat.mul_one, Nat.add_sub_cancel]
    refine ⟨Nat.le_add_left _ _, Nat.mul_dvd_mul_left _ ⟨n, rfl⟩, if_neg (by omega)⟩

theorem buddy_dvd (h : 2 ^ k ∣ p) : 2 ^ k ∣ buddy p k := by
  rcases buddy_cases h with ⟨-, hb⟩ | ⟨-, -, hb⟩ <;> rw [hb]
  · exact Nat.dvd_add h (Nat.dvd_refl _)
  · exact Nat.dvd_sub h (Nat.dvd_refl _)

theorem buddy_ne (h : 2 ^ k ∣ p) : buddy p k ≠ p := by
  rcases buddy_cases h with ⟨-, hb⟩ | ⟨h1, -, hb⟩ <;> omega

theorem min_dvd (h : 2 ^ k ∣ p) : 2 ^ (k + 1) ∣ min p (buddy p k) := by
  rcases buddy_cases h with ⟨h1, hb⟩ | ⟨h1, h2, hb⟩
  · rwa [hb, Nat.min_eq_left (by omega)]
  · rwa [hb, Nat.min_eq_right (by omega)]

/-- A block is the sum of its halves. -/
theorem holds_succ : Holds (p, k + 1) x ↔ Holds (p, k) x ∨ Holds (p + 2 ^ k, k) x := by
  simp only [Holds, Nat.pow_succ]
  omega

theorem buddy_of_dvd (h : 2 ^ (k + 1) ∣ p) : buddy p k = p + 2 ^ k := by
  rcases buddy_cases (dvd_of_le h (Nat.le_succ k)) with ⟨-, hb⟩ | ⟨h1, h2, -⟩
  · exact hb
  · have h3 := Nat.dvd_sub h h2
    have hpos := Nat.two_pow_pos k
    rw [Nat.sub_sub_self h1] at h3
    have := Nat.le_of_dvd hpos h3
    omega

theorem buddy_add (h : 2 ^ (k + 1) ∣ p) : buddy (p + 2 ^ k) k = p := by
  have hpos := Nat.two_pow_pos k
  rcases buddy_cases (Nat.dvd_add (dvd_of_le h (Nat.le_succ k)) (Nat.dvd_refl _)) with ⟨h1, -⟩ | ⟨-, -, hb⟩
  · have := Nat.le_of_dvd hpos ((Nat.dvd_add_right h).1 h1)
    omega
  · rw [hb, Nat.add_sub_cancel]

theorem buddy_buddy (h : 2 ^ k ∣ p) : buddy (buddy p k) k = p := by
  rcases buddy_cases h with ⟨h1, hb⟩ | ⟨h1, h2, hb⟩
  · rw [hb, buddy_add h1]
  · rw [hb, buddy_of_dvd h2, Nat.sub_add_cancel h1]

/-- A larger block holds a block and its buddy, or neither. -/
theorem holds_buddy (h : 2 ^ k ∣ p) (he : 2 ^ e.2 ∣ e.1) (hlt : k < e.2) : Holds e (buddy p k) ↔ Holds e p := by
  have hm := min_dvd h
  have hpar : ∀ z, z = p ∨ z = buddy p k → Holds (min p (buddy p k), k + 1) z := by
    rcases buddy_cases h with ⟨-, hb⟩ | ⟨h1, -, hb⟩ <;> rw [hb] <;> rintro z (rfl | rfl) <;>
      simp only [Holds, Nat.pow_succ] <;> omega
  constructor
  · intro hx
    exact holds_of_le (d := (_, k + 1)) hm he hlt (hpar _ (.inr rfl)) hx (hpar _ (.inl rfl))
  · intro hx
    exact holds_of_le (d := (_, k + 1)) hm he hlt (hpar _ (.inl rfl)) hx (hpar _ (.inr rfl))

/-! ## Tilings -/

/-- The blocks `B`, of orders up to `top`, have each of the cells `F` once, and no others. -/
structure Tiled (F : Nat → Prop) (top : Nat) (B : Nat × Nat → Prop) : Prop where
  aligned : ∀ d, B d → 2 ^ d.2 ∣ d.1
  order : ∀ d, B d → d.2 ≤ top
  inside : ∀ d x, B d → Holds d x → F x
  covered : ∀ x, F x → ∃ d, B d ∧ Holds d x
  apart : ∀ d e x, B d → B e → Holds d x → Holds e x → d = e

/-- No block that is less than `top` has its buddy. -/
def Reduced (top : Nat) (B : Nat × Nat → Prop) : Prop := ∀ p k, k < top → B (p, k) → ¬ B (buddy p k, k)

section

variable (ht : Tiled F top B)

include ht

theorem Tiled.congr (hB : ∀ d, B' d ↔ B d) : Tiled F top B' := by
  obtain rfl : B' = B := funext fun d => propext (hB d)
  exact ht

/-- A block is replaced by its halves. -/
theorem Tiled.split (hp : B (p, k + 1)) :
    Tiled F top fun d => (B d ∧ d ≠ (p, k + 1)) ∨ d = (p, k) ∨ d = (p + 2 ^ k, k) := by
  have hdvd : 2 ^ (k + 1) ∣ p := ht.aligned _ hp
  have hhalf : ∀ d x, d = (p, k) ∨ d = (p + 2 ^ k, k) → Holds d x → Holds (p, k + 1) x := by
    rintro d x (rfl | rfl) hx
    · exact holds_succ.2 (.inl hx)
    · exact holds_succ.2 (.inr hx)
  have hdvd' : ∀ d, d = (p, k) ∨ d = (p + 2 ^ k, k) → 2 ^ d.2 ∣ d.1 := by
    have h1 := dvd_of_le hdvd (Nat.le_succ k)
    rintro d (rfl | rfl)
    · exact h1
    · exact Nat.dvd_add h1 (Nat.dvd_refl _)
  constructor
  · rintro d (⟨hd, -⟩ | hd)
    · exact ht.aligned d hd
    · exact hdvd' d hd
  · have h1 : k + 1 ≤ top := ht.order _ hp
    rintro d (⟨hd, -⟩ | rfl | rfl)
    · exact ht.order d hd
    · exact Nat.le_of_lt h1
    · exact Nat.le_of_lt h1
  · rintro d x (⟨hd, -⟩ | hd) hx
    · exact ht.inside d x hd hx
    · exact ht.inside _ x hp (hhalf d x hd hx)
  · intro x hx
    obtain ⟨d, hd, hdx⟩ := ht.covered x hx
    by_cases hne : d = (p, k + 1)
    · subst hne
      rcases holds_succ.1 hdx with h | h
      · exact ⟨_, .inr (.inl rfl), h⟩
      · exact ⟨_, .inr (.inr rfl), h⟩
    · exact ⟨d, .inl ⟨hd, hne⟩, hdx⟩
  · rintro d e x (⟨hd, hdn⟩ | hd) (⟨he, hen⟩ | he) hdx hex
    · exact ht.apart d e x hd he hdx hex
    · exact absurd (ht.apart d _ x hd hp hdx (hhalf e x he hex)) hdn
    · exact absurd (ht.apart e _ x he hp hex (hhalf d x hd hdx)) hen
    · refine eq_of_holds (hdvd' d hd) (hdvd' e he) ?_ hdx hex
      rcases hd with rfl | rfl <;> rcases he with rfl | rfl <;> rfl

/-- Two buddies are replaced by their union. -/
theorem Tiled.merge (hp : B (p, k)) (hq : B (p + 2 ^ k, k)) (hdvd : 2 ^ (k + 1) ∣ p)
    (htop : k < top) :
    Tiled F top fun d => (B d ∧ d ≠ (p, k) ∧ d ≠ (p + 2 ^ k, k)) ∨ d = (p, k + 1) := by
  have hone : ∀ d x, B d ∧ d ≠ (p, k) ∧ d ≠ (p + 2 ^ k, k) → Holds d x → ¬ Holds (p, k + 1) x := by
    rintro d x ⟨hd, h1, h2⟩ hx hm
    rcases holds_succ.1 hm with h | h
    · exact h1 (ht.apart d _ x hd hp hx h)
    · exact h2 (ht.apart d _ x hd hq hx h)
  constructor
  · rintro d (⟨hd, -⟩ | rfl)
    · exact ht.aligned d hd
    · exact hdvd
  · rintro d (⟨hd, -⟩ | rfl)
    · exact ht.order d hd
    · exact htop
  · rintro d x (⟨hd, -⟩ | rfl) hx
    · exact ht.inside d x hd hx
    · rcases holds_succ.1 hx with h | h
      · exact ht.inside _ x hp h
      · exact ht.inside _ x hq h
  · intro x hx
    obtain ⟨d, hd, hdx⟩ := ht.covered x hx
    by_cases h1 : d = (p, k)
    · exact ⟨_, .inr rfl, holds_succ.2 (.inl (h1 ▸ hdx))⟩
    · by_cases h2 : d = (p + 2 ^ k, k)
      · exact ⟨_, .inr rfl, holds_succ.2 (.inr (h2 ▸ hdx))⟩
      · exact ⟨d, .inl ⟨hd, h1, h2⟩, hdx⟩
  · rintro d e x (hd | rfl) (he | rfl) hdx hex
    · exact ht.apart d e x hd.1 he.1 hdx hex
    · exact absurd hex (hone d x hd hdx)
    · exact absurd hdx (hone e x he hex)
    · rfl

/-- Without buddies, a block is not part of a larger one of the same cells. -/
theorem Tiled.maximal (hr : Reduced top B) (he : 2 ^ e.2 ∣ e.1) (htop : e.2 ≤ top)
    (heF : ∀ x, Holds e x → F x) (hd : B d) (hde : Holds e d.1) : e.2 ≤ d.2 := by
  induction hk : d.2 using Nat.strongRecOn generalizing d with
  | ind j ih =>
    by_contra hlt
    have hlt' : d.2 < e.2 := by omega
    have hda := ht.aligned d hd
    have hb : Holds e (buddy d.1 d.2) := (holds_buddy hda he hlt').2 hde
    obtain ⟨f, hf, hfy⟩ := ht.covered _ (heF _ hb)
    have hfa := ht.aligned f hf
    -- the block over there is not larger than `e`, else it would hold `d` too
    rcases Nat.lt_trichotomy f.2 d.2 with h | h | h
    · have hin : Holds e f.1 := holds_of_le hfa he (by omega) hfy hb (holds_self f)
      have := ih f.2 (by omega) hf hin rfl
      omega
    · have hbud : (buddy d.1 d.2, d.2) = f := by
        refine eq_of_holds (d := (buddy d.1 d.2, d.2)) (buddy_dvd hda) hfa h.symm (holds_self _) hfy
      exact hr d.1 d.2 (by omega) hd (hbud ▸ hf)
    · have hself : Holds f d.1 := (holds_buddy hda hfa h).1 hfy
      have := ht.apart d f _ hd hf (holds_self d) hself
      subst this
      omega

/-- There is one tiling without buddies. -/
theorem Tiled.unique (hr : Reduced top B) (ht' : Tiled F top B') (hr' : Reduced top B')
    (hd : B d) : B' d := by
  have hself := holds_self d
  obtain ⟨e, he, hex⟩ := ht'.covered d.1 (ht.inside d _ hd hself)
  have hda := ht.aligned d hd
  have hea := ht'.aligned e he
  have horder : d.2 = e.2 := by
    rcases Nat.lt_or_ge d.2 e.2 with h | h
    · have := ht.maximal hr hea (ht'.order e he) (ht'.inside e · he) hd hex
      omega
    · have hde : Holds d e.1 := holds_of_le hea hda h hex hself (holds_self e)
      have := ht'.maximal hr' hda (ht.order d hd) (ht.inside d · hd) he hde
      omega
  rw [eq_of_holds hda hea horder hself hex]
  exact he

/-- What is left of the cells when some blocks are taken away. -/
theorem Tiled.without (hB : ∀ d, B' d → B d) :
    Tiled (fun x => F x ∧ ∀ d, B d → ¬ B' d → ¬ Holds d x) top B' := by
  constructor
  · exact fun d hd => ht.aligned d (hB d hd)
  · exact fun d hd => ht.order d (hB d hd)
  · intro d x hd hx
    refine ⟨ht.inside d x (hB d hd) hx, fun e he hne hex => hne ?_⟩
    rw [← ht.apart d e x (hB d hd) he hx hex]
    exact hd
  · rintro x ⟨hx, hnot⟩
    obtain ⟨d, hd, hdx⟩ := ht.covered x hx
    by_cases h : B' d
    · exact ⟨d, h, hdx⟩
    · exact absurd hdx (hnot d hd h)
  · exact fun d e x hd he => ht.apart d e x (hB d hd) (hB e he)

end

/-! ## Cutting an interval -/

/-- An interval from `a` on is cut into blocks, up to `s`: each is the largest that `[a, b)` has there, and none of them
crosses `s`. -/
structure Cut (a b top s : Nat) (B : Nat × Nat → Prop) : Prop where
  tiled : Tiled (fun x => a ≤ x ∧ x < s) top B
  seam : ∀ e : Nat × Nat, 2 ^ e.2 ∣ e.1 → e.2 ≤ top → a ≤ e.1 → e.1 + 2 ^ e.2 ≤ b → e.1 < s → e.1 + 2 ^ e.2 ≤ s
  largest : ∀ d e : Nat × Nat, B d → 2 ^ e.2 ∣ e.1 → e.2 ≤ top → a ≤ e.1 → e.1 + 2 ^ e.2 ≤ b → Holds e d.1 → e.2 ≤ d.2

theorem Cut.start (a b top : Nat) : Cut a b top a fun _ => False where
  tiled := {
    aligned _ := False.elim
    order _ := False.elim
    inside _ _ := False.elim
    covered x h := by omega
    apart _ _ _ := False.elim }
  seam e _ _ h1 _ h2 := by omega
  largest _ _ := False.elim

/-- The next block: the largest that starts at `s` and fits. -/
theorem Cut.next (hc : Cut a b top s B) (has : a ≤ s) (hk : 2 ^ k ∣ s) (htop : k ≤ top)
    (hmax : ∀ j, 2 ^ j ∣ s → j ≤ top → s + 2 ^ j ≤ b → j ≤ k) :
    Cut a b top (s + 2 ^ k) fun d => B d ∨ d = (s, k) := by
  have hold : ∀ d x, B d → Holds d x → a ≤ x ∧ x < s := fun d x => hc.tiled.inside d x
  -- a block of `[a, b)` that has a cell from `s` on starts there, at the earliest
  have hlater : ∀ e : Nat × Nat, 2 ^ e.2 ∣ e.1 → e.2 ≤ top → a ≤ e.1 → e.1 + 2 ^ e.2 ≤ b → ∀ x, s ≤ x → Holds e x →
      s ≤ e.1 := by
    intro e h1 h2 h3 h4 x hx hex
    by_contra hlt
    have h5 := hc.seam e h1 h2 h3 h4 (by omega)
    have h6 := hex.2
    omega
  have hin : ∀ e : Nat × Nat, 2 ^ e.2 ∣ e.1 → e.2 ≤ top → a ≤ e.1 → e.1 + 2 ^ e.2 ≤ b → ∀ x, Holds (s, k) x →
      Holds e x → e.2 ≤ k := by
    intro e h1 h2 h3 h4 x hx hex
    have h5 := hlater e h1 h2 h3 h4 x hx.1 hex
    by_contra hlt
    -- a larger one would start at `s` too
    have h6 : Holds e s := holds_of_le (d := (s, k)) hk h1 (by simp only; omega) hx hex (holds_self _)
    have h7 : e.1 = s := by
      have := h6.1
      omega
    exact hlt (hmax e.2 (h7 ▸ h1) h2 (h7 ▸ h4))
  constructor
  · constructor
    · rintro d (hd | rfl)
      · exact hc.tiled.aligned d hd
      · exact hk
    · rintro d (hd | rfl)
      · exact hc.tiled.order d hd
      · exact htop
    · rintro d x (hd | rfl) hx
      · have := hold d x hd hx
        omega
      · have h1 := hx.1
        have h2 := hx.2
        simp only at h1 h2
        omega
    · rintro x ⟨h1, h2⟩
      rcases Nat.lt_or_ge x s with h | h
      · obtain ⟨d, hd, hx⟩ := hc.tiled.covered x ⟨h1, h⟩
        exact ⟨d, .inl hd, hx⟩
      · exact ⟨(s, k), .inr rfl, h, h2⟩
    · rintro d e x (hd | rfl) (he | rfl) hdx hex
      · exact hc.tiled.apart d e x hd he hdx hex
      · have h1 := hold d x hd hdx
        have h2 := hex.1
        omega
      · have h1 := hold e x he hex
        have h2 := hdx.1
        omega
      · rfl
  · intro e h1 h2 h3 h4 h5
    rcases Nat.lt_or_ge e.1 s with h | h
    · have := hc.seam e h1 h2 h3 h4 h
      omega
    · have hx : Holds (s, k) e.1 := ⟨h, h5⟩
      have hle := hin e h1 h2 h3 h4 e.1 hx (holds_self e)
      have hlast : Holds e (e.1 + (2 ^ e.2 - 1)) := by
        constructor <;> omega
      have := (holds_of_le (e := (s, k)) h1 hk hle (holds_self e) hx hlast).2
      simp only at this
      omega
  · rintro d e (hd | rfl) h1 h2 h3 h4 hx
    · exact hc.largest d e hd h1 h2 h3 h4 hx
    · exact hin e h1 h2 h3 h4 s (holds_self (s, k)) hx

/-- What is cut off is as large as it can be. -/
theorem Cut.reduced (hc : Cut a b top s B) (hs : s ≤ b) : Reduced top B := by
  intro p k hk hp hq
  have hda : 2 ^ k ∣ p := hc.tiled.aligned _ hp
  have hin : ∀ z, z = p ∨ z = buddy p k → a ≤ z ∧ z + 2 ^ k ≤ b := by
    have hpos := Nat.two_pow_pos k
    rintro z (rfl | rfl)
    · have h1 := hc.tiled.inside _ z hp (holds_self _)
      have h2 := hc.tiled.inside _ (z + (2 ^ k - 1)) hp (by constructor <;> simp only <;> omega)
      omega
    · have h1 := hc.tiled.inside _ _ hq (holds_self _)
      have h2 := hc.tiled.inside _ (buddy p k + (2 ^ k - 1)) hq (by constructor <;> simp only <;> omega)
      omega
  have h1 := hin p (.inl rfl)
  have h2 := hin _ (.inr rfl)
  have hm := min_dvd hda
  have hself : Holds (min p (buddy p k), k + 1) p := by
    rcases buddy_cases hda with ⟨-, hb⟩ | ⟨h1, -, hb⟩ <;> rw [hb] <;> simp only [Holds, Nat.pow_succ] <;> omega
  have hfit : min p (buddy p k) + 2 ^ (k + 1) ≤ b := by
    rcases buddy_cases hda with ⟨-, hb⟩ | ⟨h3, -, hb⟩ <;> rw [hb] at h2 ⊢ <;> rw [Nat.pow_succ] <;> omega
  have := hc.largest (p, k) (min p (buddy p k), k + 1) hp hm hk (by simp only; omega) hfit hself
  omega

end Buddy
