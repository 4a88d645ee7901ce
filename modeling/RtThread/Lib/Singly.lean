import Mathlib.Data.List.Nodup
import Mathlib.Logic.Function.Basic

/-!
# Singly linked lists

Nodes linked by a function `next`: `Chain next head xs` says that `xs` are the nodes reached from `head`, in order, up to
a null link. Writing the link of a node that is not in the list leaves it alone; the edits are a new first node
(`Chain.cons`), a new last one (`Chain.snoc`), one after the first (`Chain.insert`), and one less (`Chain.unlink`).
-/

namespace Singly

variable {α : Type}

/-- The nodes from `head` on are `xs`. -/
def Chain (next : α → Option α) : Option α → List α → Prop
  | head, [] => head = none
  | head, x :: xs => head = some x ∧ Chain next (next x) xs

variable {next next' : α → Option α} {head : Option α} {x y p : α} {xs ys zs : List α}

theorem Chain.head_eq (hc : Chain next head xs) : head = xs.head? := by
  cases xs with
  | nil => exact hc
  | cons x xs => exact hc.1

theorem Chain.congr (hc : Chain next head xs) (hn : ∀ x ∈ xs, next' x = next x) : Chain next' head xs := by
  induction xs generalizing head with
  | nil => exact hc
  | cons x xs ih =>
    constructor
    · exact hc.1
    · rw [hn x (by simp)]
      exact ih hc.2 fun y hy => hn y (by simp [hy])

/-- The link of a node of the chain. -/
theorem Chain.next_eq (hc : Chain next head (ys ++ p :: xs)) : next p = xs.head? := by
  induction ys generalizing head with
  | nil => exact hc.2.head_eq
  | cons y ys ih => exact ih hc.2

/-- Nodes of which each links the next. -/
theorem Chain.of_next (h : ∀ i (hi : i < xs.length), next xs[i] = xs[i + 1]?) : Chain next xs.head? xs := by
  induction xs with
  | nil => rfl
  | cons x xs ih =>
    constructor
    · rfl
    · have h0 : next x = xs.head? := by
        rw [List.head?_eq_getElem?]
        exact h 0 (by simp)
      rw [h0]
      apply ih
      intro i hi
      exact h (i + 1) (by simpa using hi)

/-- A chain is determined by its head. -/
theorem Chain.unique (hx : Chain next head xs) (hy : Chain next head ys) : xs = ys := by
  induction xs generalizing head ys with
  | nil =>
    obtain rfl : head = none := hx
    cases ys with
    | nil => rfl
    | cons y ys => cases hy.1
  | cons x xs ih =>
    obtain ⟨rfl, hx⟩ := hx
    cases ys with
    | nil => cases hy
    | cons y ys =>
      obtain ⟨hxy, hy⟩ := hy
      cases hxy
      rw [ih hx hy]

section Update

variable [DecidableEq α]

/-- The link of a node that is not in the list does not count. -/
theorem Chain.update (hc : Chain next head xs) (hx : x ∉ xs) (v : Option α) :
    Chain (Function.update next x v) head xs := by
  apply hc.congr
  intro y hy
  have hne : y ≠ x := by rintro rfl; exact hx hy
  exact Function.update_of_ne hne _ _

/-- A new first node. -/
theorem Chain.cons (hc : Chain next head xs) (hx : x ∉ xs) :
    Chain (Function.update next x head) (some x) (x :: xs) := by
  constructor
  · rfl
  · rw [Function.update_self]
    exact hc.update hx head

/-- A new last node, after `y`. -/
theorem Chain.snoc (hc : Chain next head xs) (hnd : xs.Nodup) (hy : xs.getLast? = some y) (hx : x ∉ xs)
    (hnull : next x = none) : Chain (Function.update next y (some x)) head (xs ++ [x]) := by
  induction xs generalizing head with
  | nil => cases hy
  | cons z zs ih =>
    obtain ⟨hz, hnd'⟩ := List.nodup_cons.1 hnd
    have hxz : x ≠ z := by rintro rfl; exact hx (by simp)
    have hxzs : x ∉ zs := fun h => hx (by simp [h])
    constructor
    · exact hc.1
    · cases zs with
      | nil =>
        obtain rfl : z = y := by simpa using hy
        rw [Function.update_self]
        constructor
        · rfl
        · rw [Function.update_of_ne hxz, hnull]
          rfl
      | cons w ws =>
        have hy' : (w :: ws).getLast? = some y := by rw [← hy, List.getLast?_cons_cons]
        have hzy : z ≠ y := by
          rintro rfl
          exact hz (List.mem_of_getLast? hy')
        rw [Function.update_of_ne hzy]
        exact ih hc.2 hnd' hy' hxzs

/-- A new second node. -/
theorem Chain.insert (hc : Chain next (some p) (p :: xs)) (hp : p ∉ xs) (hx : x ∉ p :: xs) :
    Chain (Function.update (Function.update next x (next p)) p (some x)) (some p) (p :: x :: xs) := by
  rw [List.mem_cons, not_or] at hx
  have hne : x ≠ p := hx.1
  refine ⟨rfl, by rw [Function.update_self], ?_⟩
  rw [Function.update_of_ne hne, Function.update_self]
  exact (hc.2.update hx.2 _).update hp _

/-- The node after `p` is taken out. -/
theorem Chain.unlink (hc : Chain next head (ys ++ p :: x :: zs)) (hnd : (ys ++ p :: x :: zs).Nodup) :
    Chain (Function.update next p (next x)) head (ys ++ p :: zs) := by
  induction ys generalizing head with
  | nil =>
    obtain ⟨hp, -, hx⟩ := hc
    refine ⟨hp, ?_⟩
    rw [Function.update_self]
    apply hx.update
    intro hmem
    exact (List.nodup_cons.1 hnd).1 (by simp [hmem])
  | cons y ys ih =>
    obtain ⟨hy, hnd'⟩ := List.nodup_cons.1 hnd
    have hne : y ≠ p := by rintro rfl; exact hy (by simp)
    refine ⟨hc.1, ?_⟩
    rw [Function.update_of_ne hne]
    exact ih hc.2 hnd'

end Update

end Singly
