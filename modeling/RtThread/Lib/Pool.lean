import Mathlib.Data.List.Nodup
import Mathlib.Data.List.Perm.Subperm
import Mathlib.Data.List.Range
import Mathlib.Logic.Function.Basic

/-!
# A pool of buffers

Of the buffers `0 … n - 1` some lie in the pool, in a list without repetition, and each of the others is in the hand of
one holder. A holder takes a buffer (`Parted.grab`) or puts it back (`Parted.give`).
-/

namespace Pool

variable {H : Type} {n x : Nat} {xs ys : List Nat} {hand : H → Option Nat} {c c' : H}

/-- Every buffer is in the pool once, or in one hand. -/
structure Parted (n : Nat) (xs : List Nat) (hand : H → Option Nat) : Prop where
  nodup : xs.Nodup
  apart : ∀ {c x}, hand c = some x → x ∉ xs
  one : ∀ {c c' x}, hand c = some x → hand c' = some x → c = c'
  all : ∀ x, x < n ↔ x ∈ xs ∨ ∃ c, hand c = some x

theorem Parted.range (n : Nat) (hh : ∀ c, hand c = none) : Parted n (List.range n) hand where
  nodup := List.nodup_range
  apart {c x} hc := by rw [hh c] at hc; cases hc
  one {c c' x} hc := by rw [hh c] at hc; cases hc
  all x := by simp [hh]

theorem Parted.perm (hp : Parted n xs hand) (h : ys.Perm xs) : Parted n ys hand where
  nodup := h.nodup_iff.2 hp.nodup
  apart hc := fun hm => hp.apart hc (h.mem_iff.1 hm)
  one := hp.one
  all x := by rw [h.mem_iff]; exact hp.all x

theorem Parted.length_le (hp : Parted n xs hand) : xs.length ≤ n := by
  have hsub : xs ⊆ List.range n := fun y hy => List.mem_range.2 ((hp.all y).2 (Or.inl hy))
  simpa using (hp.nodup.subperm hsub).length_le

/-- A buffer in a hand leaves room in the pool. -/
theorem Parted.length_lt (hp : Parted n xs hand) (hc : hand c = some x) : xs.length < n := by
  have hnd : (x :: xs).Nodup := List.nodup_cons.2 ⟨hp.apart hc, hp.nodup⟩
  have hsub : (x :: xs) ⊆ List.range n := by
    intro y hy
    rw [List.mem_range, hp.all]
    rcases List.mem_cons.1 hy with rfl | hy
    · exact Or.inr ⟨c, hc⟩
    · exact Or.inl hy
  have hlen := (hnd.subperm hsub).length_le
  rw [List.length_range] at hlen
  exact Nat.lt_of_succ_le hlen

variable [DecidableEq H]

/-- The holder `c` takes the buffer `x`. -/
theorem Parted.grab (hp : Parted n (x :: xs) hand) (hc : hand c = none) :
    Parted n xs (Function.update hand c (some x)) := by
  obtain ⟨hx, hnd⟩ := List.nodup_cons.1 hp.nodup
  have key {d : H} {y : Nat} (hd : Function.update hand c (some x) d = some y) :
      d = c ∧ y = x ∨ d ≠ c ∧ hand d = some y := by
    by_cases e : d = c
    · subst e
      rw [Function.update_self] at hd
      exact Or.inl ⟨rfl, (Option.some.inj hd).symm⟩
    · rw [Function.update_of_ne e] at hd
      exact Or.inr ⟨e, hd⟩
  refine ⟨hnd, fun {d y} hd => ?_, fun {d d' y} hd hd' => ?_, fun y => ?_⟩
  · rcases key hd with ⟨-, rfl⟩ | ⟨-, hd⟩
    · exact hx
    · exact fun hm => hp.apart hd (List.mem_cons_of_mem _ hm)
  · rcases key hd with ⟨rfl, rfl⟩ | ⟨-, h1⟩
    · rcases key hd' with ⟨rfl, -⟩ | ⟨-, h2⟩
      · rfl
      · exact absurd (by simp) (hp.apart h2)
    · rcases key hd' with ⟨-, rfl⟩ | ⟨-, h2⟩
      · exact absurd (by simp) (hp.apart h1)
      · exact hp.one h1 h2
  · rw [hp.all]
    constructor
    · rintro (hm | ⟨d, hd⟩)
      · rcases List.mem_cons.1 hm with rfl | hm
        · exact Or.inr ⟨c, Function.update_self _ _ _⟩
        · exact Or.inl hm
      · have hne : d ≠ c := by rintro rfl; rw [hc] at hd; cases hd
        exact Or.inr ⟨d, by rw [Function.update_of_ne hne]; exact hd⟩
    · rintro (hm | ⟨d, hd⟩)
      · exact Or.inl (List.mem_cons_of_mem _ hm)
      · rcases key hd with ⟨-, rfl⟩ | ⟨-, hd⟩
        · exact Or.inl (by simp)
        · exact Or.inr ⟨d, hd⟩

/-- The holder `c` puts the buffer `x` back. -/
theorem Parted.give (hp : Parted n xs hand) (hc : hand c = some x) :
    Parted n (x :: xs) (Function.update hand c none) := by
  have key {d : H} {y : Nat} (hd : Function.update hand c none d = some y) : d ≠ c ∧ hand d = some y := by
    by_cases e : d = c
    · subst e
      rw [Function.update_self] at hd
      cases hd
    · rw [Function.update_of_ne e] at hd
      exact ⟨e, hd⟩
  refine ⟨List.nodup_cons.2 ⟨hp.apart hc, hp.nodup⟩, fun {d y} hd hm => ?_, fun {d d' y} hd hd' => ?_, fun y => ?_⟩
  · obtain ⟨hne, hd⟩ := key hd
    rcases List.mem_cons.1 hm with rfl | hm
    · exact hne (hp.one hd hc)
    · exact hp.apart hd hm
  · exact hp.one (key hd).2 (key hd').2
  · rw [hp.all]
    constructor
    · rintro (hm | ⟨d, hd⟩)
      · exact Or.inl (List.mem_cons_of_mem _ hm)
      · by_cases e : d = c
        · subst e
          rw [hc] at hd
          exact Or.inl (by simp [Option.some.inj hd])
        · exact Or.inr ⟨d, by rw [Function.update_of_ne e]; exact hd⟩
    · rintro (hm | ⟨d, hd⟩)
      · rcases List.mem_cons.1 hm with rfl | hm
        · exact Or.inr ⟨c, hc⟩
        · exact Or.inl hm
      · exact Or.inr ⟨d, (key hd).2⟩

end Pool
