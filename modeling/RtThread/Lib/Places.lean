import Mathlib.Data.List.Nodup
import Mathlib.Data.List.Perm.Basic

/-!
# Things in places

The things `0 … n - 1` lie in places, each in one place, once (`Placed`). A thing moves from a place to another
(`Placed.move`); the order of the things in a place does not matter (`Placed.perm`).
-/

namespace Places

variable {P : Type} {n x : Nat} {items items' : P → List Nat} {p q : P} {xs : List Nat}

/-- Every thing is in exactly one place, once. -/
structure Placed (n : Nat) (items : P → List Nat) : Prop where
  nodup : ∀ p, (items p).Nodup
  one : ∀ {p q x}, x ∈ items p → x ∈ items q → p = q
  all : ∀ x, x < n ↔ ∃ p, x ∈ items p

/-- All things in one place. -/
theorem Placed.single (hp : (items p).Perm (List.range n)) (hq : ∀ q, q ≠ p → items q = []) : Placed n items where
  nodup q := by
    by_cases h : q = p
    · rw [h]
      exact hp.nodup_iff.2 List.nodup_range
    · rw [hq q h]
      exact List.nodup_nil
  one {q r x} hx hy := by
    have key : ∀ q, x ∈ items q → q = p := by
      intro q hx
      by_contra h
      rw [hq q h] at hx
      cases hx
    rw [key q hx, key r hy]
  all x := by
    constructor
    · intro hx
      exact ⟨p, hp.mem_iff.2 (List.mem_range.2 hx)⟩
    · rintro ⟨q, hx⟩
      by_cases h : q = p
      · rw [h] at hx
        exact List.mem_range.1 (hp.mem_iff.1 hx)
      · rw [hq q h] at hx
        cases hx

theorem Placed.perm (h : Placed n items) (hp : ∀ p, (items' p).Perm (items p)) : Placed n items' where
  nodup p := (hp p).nodup_iff.2 (h.nodup p)
  one hx hy := h.one ((hp _).mem_iff.1 hx) ((hp _).mem_iff.1 hy)
  all x := by
    rw [h.all]
    exact exists_congr fun p => (hp p).mem_iff.symm

/-- The thing `x` moves from `p` to `q`. -/
theorem Placed.move (h : Placed n items) (hpq : p ≠ q) (hp : (items p).Perm (x :: items' p))
    (hq : (items' q).Perm (x :: items q)) (ho : ∀ r, r ≠ p → r ≠ q → items' r = items r) : Placed n items' := by
  have hx : x ∈ items p := hp.mem_iff.2 List.mem_cons_self
  have hnd := List.nodup_cons.1 (hp.nodup_iff.1 (h.nodup p))
  have hxq : ∀ r, r ≠ p → x ∉ items r := fun r hr hxr => hr (h.one hxr hx)
  -- where a thing that is now in `r` was
  have hmem : ∀ r y, y ∈ items' r ↔ (y = x ∧ r = q) ∨ (y ≠ x ∧ y ∈ items r) := by
    intro r y
    by_cases hr : r = p
    · subst hr
      rw [hp.mem_iff, List.mem_cons]
      constructor
      · intro hy
        refine Or.inr ⟨?_, Or.inr hy⟩
        rintro rfl
        exact hnd.1 hy
      · rintro (⟨-, e⟩ | ⟨hne, hy⟩)
        · exact absurd e hpq
        · exact hy.resolve_left hne
    · by_cases hrq : r = q
      · subst hrq
        rw [hq.mem_iff, List.mem_cons]
        constructor
        · intro hy
          by_cases e : y = x
          · exact Or.inl ⟨e, rfl⟩
          · exact Or.inr ⟨e, hy.resolve_left e⟩
        · rintro (⟨e, -⟩ | ⟨-, hy⟩)
          · exact Or.inl e
          · exact Or.inr hy
      · rw [ho r hr hrq]
        constructor
        · intro hy
          refine Or.inr ⟨?_, hy⟩
          rintro rfl
          exact hxq r hr hy
        · rintro (⟨-, e⟩ | ⟨-, hy⟩)
          · exact absurd e hrq
          · exact hy
  constructor
  · intro r
    by_cases hr : r = p
    · rw [hr]
      exact hnd.2
    · by_cases hrq : r = q
      · rw [hrq]
        exact hq.nodup_iff.2 (List.nodup_cons.2 ⟨hxq q (Ne.symm hpq), h.nodup q⟩)
      · rw [ho r hr hrq]
        exact h.nodup r
  · intro r r' y hy hy'
    rcases (hmem r y).1 hy with ⟨e, rfl⟩ | ⟨hne, hy⟩ <;> rcases (hmem r' y).1 hy' with ⟨e', rfl⟩ | ⟨hne', hy'⟩
    · rfl
    · exact absurd e hne'
    · exact absurd e' hne
    · exact h.one hy hy'
  · intro y
    rw [h.all]
    constructor
    · rintro ⟨r, hy⟩
      by_cases e : y = x
      · exact ⟨q, (hmem q y).2 (Or.inl ⟨e, rfl⟩)⟩
      · exact ⟨r, (hmem r y).2 (Or.inr ⟨e, hy⟩)⟩
    · rintro ⟨r, hy⟩
      rcases (hmem r y).1 hy with ⟨rfl, -⟩ | ⟨-, hy⟩
      · exact ⟨p, hx⟩
      · exact ⟨r, hy⟩

end Places
