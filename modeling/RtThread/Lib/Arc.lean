import Mathlib.Data.List.Basic
import Mathlib.Order.Nat

/-!
# Segments on a circle

Segments, each a start and a positive length, that follow one another in `[lo, hi)` (`Ascending`), or that do so after the
end of the list has been carried around to the start of the buffer (`Arc`). Segments of an arc are disjoint, any of them
can be taken out, and one can be added after the last, or at the start of the buffer, where there is room.
-/

namespace Arc

/-- A start and a length. -/
abbrev Seg := Nat × Nat

variable {lo mid hi n : Nat} {x y : Seg} {xs ys zs : List Seg}

/-- The segments follow one another in `[lo, hi)`. -/
def Ascending (lo hi : Nat) : List Seg → Prop
  | [] => lo ≤ hi
  | x :: xs => lo ≤ x.1 ∧ 0 < x.2 ∧ Ascending (x.1 + x.2) hi xs

theorem Ascending.le (h : Ascending lo hi xs) : lo ≤ hi := by
  induction xs generalizing lo with
  | nil => exact h
  | cons x xs ih =>
    have h1 := ih h.2.2
    have h2 := h.1
    omega

theorem Ascending.mono (h : Ascending mid hi xs) (hl : lo ≤ mid) : Ascending lo hi xs := by
  cases xs with
  | nil => exact hl.trans h
  | cons x xs => exact ⟨hl.trans h.1, h.2⟩

theorem ascending_append : Ascending lo hi (xs ++ ys) ↔ ∃ mid, Ascending lo mid xs ∧ Ascending mid hi ys := by
  induction xs generalizing lo with
  | nil =>
    constructor
    · intro h
      exact ⟨lo, le_refl lo, h⟩
    · rintro ⟨mid, hl, h⟩
      exact h.mono hl
  | cons x xs ih =>
    constructor
    · rintro ⟨h1, h2, h3⟩
      obtain ⟨mid, hx, hy⟩ := ih.1 h3
      exact ⟨mid, ⟨h1, h2, hx⟩, hy⟩
    · rintro ⟨mid, ⟨h1, h2, hx⟩, hy⟩
      exact ⟨h1, h2, ih.2 ⟨mid, hx, hy⟩⟩

theorem Ascending.sublist (h : Ascending lo hi ys) (hs : xs.Sublist ys) : Ascending lo hi xs := by
  induction hs generalizing lo with
  | slnil => exact h
  | cons y _ ih => exact ih (h.2.2.mono (h.1.trans (Nat.le_add_right _ _)))
  | cons_cons y _ ih => exact ⟨h.1, h.2.1, ih h.2.2⟩

/-- The segments lie in `[lo, hi)`. -/
theorem Ascending.bounds (h : Ascending lo hi xs) (hx : x ∈ xs) : lo ≤ x.1 ∧ 0 < x.2 ∧ x.1 + x.2 ≤ hi := by
  induction xs generalizing lo with
  | nil => cases hx
  | cons y ys ih =>
    rcases List.mem_cons.1 hx with rfl | hx
    · exact ⟨h.1, h.2.1, h.2.2.le⟩
    · obtain ⟨h1, h2, h3⟩ := ih h.2.2 hx
      have hlo := h.1
      exact ⟨by omega, h2, h3⟩

/-- Each segment ends before the ones after it start. -/
theorem Ascending.pairwise (h : Ascending lo hi xs) : xs.Pairwise fun x y => x.1 + x.2 ≤ y.1 := by
  induction xs generalizing lo with
  | nil => exact .nil
  | cons x xs ih =>
    constructor
    · intro y hy
      exact (h.2.2.bounds hy).1
    · exact ih h.2.2

/-- The segments from the start of the first on. -/
theorem Ascending.from_head (h : Ascending lo hi (x :: xs)) : Ascending x.1 hi (x :: xs) := ⟨le_refl _, h.2⟩

/-- The segments up to the end of the last. -/
theorem Ascending.to_last (h : Ascending lo hi (xs ++ [x])) : Ascending lo (x.1 + x.2) (xs ++ [x]) := by
  rw [ascending_append] at h ⊢
  obtain ⟨mid, hxs, hx⟩ := h
  exact ⟨mid, hxs, hx.1, hx.2.1, le_refl _⟩

/-- Room after the last segment. -/
theorem Ascending.snoc (h : Ascending lo mid xs) (hn : 0 < n) (hr : mid + n ≤ hi) :
    Ascending lo hi (xs ++ [(mid, n)]) :=
  ascending_append.2 ⟨mid, h, le_refl _, hn, hr⟩

/-- The segments follow one another in `[lo, hi)` on a circle: the last ones may stand before the first. -/
def Circular (lo hi : Nat) (xs : List Seg) : Prop :=
  ∃ ys zs mid, xs = ys ++ zs ∧ Ascending mid hi ys ∧ Ascending lo mid zs

theorem Ascending.circular (h : Ascending lo hi xs) : Circular lo hi xs :=
  ⟨xs, [], lo, (List.append_nil _).symm, h, le_refl lo⟩

theorem Circular.sublist (h : Circular lo hi ys) (hs : xs.Sublist ys) : Circular lo hi xs := by
  obtain ⟨us, vs, mid, rfl, hu, hv⟩ := h
  obtain ⟨xs1, xs2, rfl, h1, h2⟩ := List.sublist_append_iff.1 hs
  exact ⟨xs1, xs2, mid, rfl, hu.sublist h1, hv.sublist h2⟩

theorem Circular.bounds (h : Circular lo hi xs) (hx : x ∈ xs) : lo ≤ x.1 ∧ 0 < x.2 ∧ x.1 + x.2 ≤ hi := by
  obtain ⟨us, vs, mid, rfl, hu, hv⟩ := h
  have hlm := hv.le
  have hmh := hu.le
  rcases List.mem_append.1 hx with hx | hx
  · obtain ⟨h1, h2, h3⟩ := hu.bounds hx
    exact ⟨hlm.trans h1, h2, h3⟩
  · obtain ⟨h1, h2, h3⟩ := hv.bounds hx
    exact ⟨h1, h2, h3.trans hmh⟩

/-- Two segments of the circle do not overlap. -/
def Apart (x y : Seg) : Prop := x.1 + x.2 ≤ y.1 ∨ y.1 + y.2 ≤ x.1

theorem Circular.pairwise (h : Circular lo hi xs) : xs.Pairwise Apart := by
  obtain ⟨us, vs, mid, rfl, hu, hv⟩ := h
  rw [List.pairwise_append]
  refine ⟨hu.pairwise.imp Or.inl, hv.pairwise.imp Or.inl, ?_⟩
  intro x hx y hy
  have h1 := (hu.bounds hx).1
  have h2 := (hv.bounds hy).2.2
  exact Or.inr (h2.trans h1)

theorem last_of_append (hz : zs ≠ []) (hy : (ys ++ zs).getLast? = some y) : ∃ ws, zs = ws ++ [y] := by
  rw [List.getLast?_append_of_ne_nil _ hz] at hy
  exact List.getLast?_eq_some_iff.1 hy

/-- The first segment stands before the last: nothing has been carried around. -/
theorem Circular.ascending (h : Circular lo hi xs) (hx : xs.head? = some x) (hy : xs.getLast? = some y)
    (hle : x.1 ≤ y.1) : Ascending lo hi xs := by
  obtain ⟨us, vs, mid, rfl, hu, hv⟩ := h
  cases us with
  | nil => exact ascending_append.2 ⟨lo, Nat.le_refl lo, by simpa using ascending_append.2 ⟨mid, hv, hu⟩⟩
  | cons u us =>
    cases vs with
    | nil =>
      rw [List.append_nil]
      exact hu.mono hv.le
    | cons v vs =>
      obtain rfl : u = x := Option.some.inj hx
      obtain ⟨ws, hws⟩ := last_of_append (List.cons_ne_nil v vs) hy
      have h1 := hu.1
      have h2 := hv.bounds (x := y) (by rw [hws]; simp)
      omega

/-- The last segment stands before the first: it has been carried around. -/
theorem Circular.carried (h : Circular lo hi xs) (hx : xs.head? = some x) (hy : xs.getLast? = some y)
    (hlt : y.1 < x.1) :
    ∃ us vs, xs = us ++ vs ∧ Ascending x.1 hi us ∧ Ascending lo (y.1 + y.2) vs ∧ y.1 + y.2 ≤ x.1 := by
  obtain ⟨us, vs, mid, rfl, hu, hv⟩ := h
  have hne (ws : List Seg) (hh : ws.head? = some x) (hl : ws.getLast? = some y) (mid hi : Nat) :
      ¬Ascending mid hi ws := by
    intro ha
    cases ws with
    | nil => cases hh
    | cons w ws =>
      cases hh
      have h1 := ha.from_head.bounds (List.mem_of_getLast? hl)
      omega
  cases us with
  | nil => exact absurd hv (hne vs hx hy lo mid)
  | cons u us =>
    cases vs with
    | nil =>
      rw [List.append_nil] at hx hy
      exact absurd hu (hne _ hx hy mid hi)
    | cons v vs =>
      obtain rfl := Option.some.inj hx
      obtain ⟨ws, hws⟩ := last_of_append (List.cons_ne_nil v vs) hy
      have h1 := hu.1
      rw [hws] at hv ⊢
      have h2 := hv.bounds (x := y) (by simp)
      exact ⟨u :: us, ws ++ [y], rfl, hu.from_head, hv.to_last, by omega⟩

/-- A first segment. -/
theorem circular_single (hn : 0 < n) (hr : lo + n ≤ hi) : Circular lo hi [(lo, n)] :=
  (show Ascending lo hi [(lo, n)] from ⟨Nat.le_refl lo, hn, hr⟩).circular

section

variable (h : Circular lo hi xs) (hx : xs.head? = some x) (hy : xs.getLast? = some y)

include h hx hy

/-- Room between the last segment and the end of the buffer. -/
theorem Circular.push_end (hle : x.1 ≤ y.1)
    (hn : 0 < n) (hr : y.1 + y.2 + n ≤ hi) : Circular lo hi (xs ++ [(y.1 + y.2, n)]) := by
  have ha := h.ascending hx hy hle
  obtain ⟨ws, rfl⟩ := List.getLast?_eq_some_iff.1 hy
  exact (ha.to_last.snoc hn hr).circular

/-- Room between the start of the buffer and the first segment. -/
theorem Circular.push_start
    (hle : x.1 ≤ y.1) (hn : 0 < n) (hr : lo + n ≤ x.1) : Circular lo hi (xs ++ [(lo, n)]) := by
  have ha := h.ascending hx hy hle
  cases xs with
  | nil => cases hx
  | cons z zs =>
    obtain rfl := Option.some.inj hx
    exact ⟨z :: zs, [(lo, n)], z.1, rfl, ha.from_head, Nat.le_refl lo, hn, hr⟩

/-- Room between the last segment and the first. -/
theorem Circular.push_between
    (hlt : y.1 < x.1) (hn : 0 < n) (hr : y.1 + y.2 + n ≤ x.1) : Circular lo hi (xs ++ [(y.1 + y.2, n)]) := by
  obtain ⟨us, vs, rfl, hu, hv, -⟩ := h.carried hx hy hlt
  exact ⟨us, vs ++ [(y.1 + y.2, n)], x.1, List.append_assoc _ _ _, hu, hv.snoc hn hr⟩

end

end Arc
