import Mathlib.Order.Lattice

/-!
# Lists sorted by a key

`SortedBy f xs`: the keys `f x` of the list do not decrease. An element may be taken out of it, put at its place, put at
the head or given a larger key; the last two keep the order exactly when the key is at most the ones behind it
(`cons_iff`, `raise_iff`). The first element with at least a certain key is then one with the least such key (`first_le`).
-/

namespace Sorting

variable {α κ : Type} [LinearOrder κ] {f g : α → κ} {x z : α} {xs ys zs : List α} {k : κ}

/-- The keys of the list do not decrease. -/
def SortedBy (f : α → κ) (xs : List α) : Prop := xs.Pairwise fun a b => f a ≤ f b

namespace SortedBy

/-- The order depends on the keys of the elements. -/
theorem congr (h : ∀ x ∈ xs, g x = f x) : SortedBy g xs ↔ SortedBy f xs := by
  apply List.Pairwise.iff_of_mem
  intro a b ha hb
  rw [h a ha, h b hb]

theorem singleton (x : α) : SortedBy f [x] := List.pairwise_singleton _ x

theorem append_iff : SortedBy f (ys ++ zs) ↔ SortedBy f ys ∧ SortedBy f zs ∧ ∀ y ∈ ys, ∀ z ∈ zs, f y ≤ f z :=
  List.pairwise_append

/-- An element is taken out. -/
theorem remove (h : SortedBy f (ys ++ x :: zs)) : SortedBy f (ys ++ zs) := by
  apply List.Pairwise.sublist _ h
  exact List.Sublist.append_left (List.sublist_cons_self x zs) ys

/-- An element is put at the head. -/
theorem cons_iff (h : SortedBy f xs) : SortedBy f (x :: xs) ↔ ∀ y ∈ xs, f x ≤ f y :=
  List.pairwise_cons.trans (and_iff_left h)

/-- An element is put behind the ones with smaller keys. -/
theorem insert (h : SortedBy f (ys ++ zs)) (hy : ∀ y ∈ ys, f y ≤ f x) (hz : ∀ z ∈ zs.head?, f x ≤ f z) :
    SortedBy f (ys ++ x :: zs) := by
  obtain ⟨h1, h2, h3⟩ := append_iff.1 h
  have hle : ∀ z ∈ zs, f x ≤ f z := by
    cases zs with
    | nil => nofun
    | cons w ws =>
      intro z hm
      have hw : f x ≤ f w := hz w rfl
      rcases List.mem_cons.1 hm with rfl | hm
      · exact hw
      · exact le_trans hw ((List.pairwise_cons.1 h2).1 z hm)
  refine append_iff.2 ⟨h1, (cons_iff h2).2 hle, ?_⟩
  intro y hm z hm'
  rcases List.mem_cons.1 hm' with rfl | hm'
  · exact hy y hm
  · exact h3 y hm z hm'

/-- An element gets a larger key. -/
theorem raise_iff (h : SortedBy f (ys ++ x :: zs)) (hg : ∀ y ∈ ys ++ zs, g y = f y) (hx : f x ≤ g x) :
    SortedBy g (ys ++ x :: zs) ↔ ∀ z ∈ zs, g x ≤ g z := by
  obtain ⟨h1, h2, h3⟩ := append_iff.1 h
  have hg1 (y : α) (hy : y ∈ ys) : g y = f y := hg y (List.mem_append_left _ hy)
  have hg2 (z : α) (hz : z ∈ zs) : g z = f z := hg z (List.mem_append_right _ hz)
  constructor
  · intro hg'
    exact (List.pairwise_cons.1 (append_iff.1 hg').2.1).1
  · intro hz
    refine append_iff.2 ⟨(congr hg1).2 h1, ?_, ?_⟩
    · exact (cons_iff ((congr hg2).2 (List.pairwise_cons.1 h2).2)).2 hz
    · intro y hy z hm
      rw [hg1 y hy]
      rcases List.mem_cons.1 hm with rfl | hm
      · exact le_trans (h3 y hy z List.mem_cons_self) hx
      · rw [hg2 z hm]
        exact h3 y hy z (List.mem_cons_of_mem x hm)

/-- The first element with a key from `k` on has the least such key. -/
theorem first_le (h : SortedBy f (ys ++ x :: zs)) (hy : ∀ y ∈ ys, f y < k) (hz : z ∈ ys ++ x :: zs) (hk : k ≤ f z) :
    f x ≤ f z := by
  obtain ⟨-, h2, -⟩ := append_iff.1 h
  rcases List.mem_append.1 hz with hm | hm
  · exact absurd (lt_of_lt_of_le (hy z hm) hk) (lt_irrefl _)
  · rcases List.mem_cons.1 hm with rfl | hm
    · exact le_refl _
    · exact (List.pairwise_cons.1 h2).1 z hm

end SortedBy

end Sorting
