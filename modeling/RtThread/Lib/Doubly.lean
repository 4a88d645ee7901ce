import Mathlib.Data.List.Nodup

/-!
# Doubly linked lists that end in null

Nodes linked by `next` and `pre`: `Linked next pre prev head xs` says that `xs` are the nodes from `head` on, the first of
which has `prev` before it. The edits are a new first node (`Linked.push`) and one less (`Linked.remove`), which say what
the links must be afterwards.
-/

namespace Doubly

variable {α : Type}

/-- The nodes from `head` on are `xs`; before the first is `prev`. -/
def Linked (next pre : α → Option α) : Option α → Option α → List α → Prop
  | _, head, [] => head = none
  | prev, head, x :: xs => head = some x ∧ pre x = prev ∧ Linked next pre (some x) (next x) xs

variable {next next' pre pre' : α → Option α} {prev prev' head : Option α} {x y : α} {xs : List α}

theorem Linked.head_eq (h : Linked next pre prev head xs) : head = xs.head? := by
  cases xs with
  | nil => exact h
  | cons x xs => exact h.1

/-- A list is determined by its head. -/
theorem Linked.unique {ys : List α} (hx : Linked next pre prev head xs) (hy : Linked next pre prev' head ys) : xs = ys := by
  induction xs generalizing prev prev' head ys with
  | nil =>
    obtain rfl : head = none := hx
    cases ys with
    | nil => rfl
    | cons y ys => cases hy.1
  | cons x xs ih =>
    obtain ⟨rfl, -, hx⟩ := hx
    cases ys with
    | nil => cases hy
    | cons y ys =>
      obtain ⟨hxy, -, hy⟩ := hy
      cases hxy
      rw [ih hx hy]

section

variable (h : Linked next pre prev head xs)

include h

theorem Linked.congr (hn : ∀ y ∈ xs, next' y = next y)
    (hp : ∀ y ∈ xs, pre' y = pre y) : Linked next' pre' prev head xs := by
  induction xs generalizing prev head with
  | nil => exact h
  | cons x xs ih =>
    obtain ⟨h1, h2, h3⟩ := h
    refine ⟨h1, by rw [hp x (by simp), h2], ?_⟩
    rw [hn x (by simp)]
    exact ih h3 (fun y hy => hn y (by simp [hy])) fun y hy => hp y (by simp [hy])

/-- The links lead to nodes of the list. -/
theorem Linked.next_mem (hx : x ∈ xs) (hy : next x = some y) : y ∈ xs := by
  induction xs generalizing prev head with
  | nil => cases hx
  | cons z xs ih =>
    obtain ⟨-, -, h3⟩ := h
    rcases List.mem_cons.1 hx with rfl | hx
    · rw [h3.head_eq] at hy
      exact List.mem_cons_of_mem _ (List.mem_of_head? hy)
    · exact List.mem_cons_of_mem _ (ih h3 hx)

theorem Linked.pre_mem (hx : x ∈ xs) : pre x = prev ∨ ∃ y ∈ xs, pre x = some y := by
  induction xs generalizing prev head with
  | nil => cases hx
  | cons z xs ih =>
    obtain ⟨-, h2, h3⟩ := h
    rcases List.mem_cons.1 hx with rfl | hx
    · exact .inl h2
    · right
      rcases ih h3 hx with h | ⟨y, hy, h⟩
      · exact ⟨z, by simp, h⟩
      · exact ⟨y, by simp [hy], h⟩

theorem Linked.pre_ne (hnd : xs.Nodup) (hprev : ∀ y, prev = some y → y ∉ xs)
    (hx : x ∈ xs) : pre x ≠ some x := by
  induction xs generalizing prev head with
  | nil => cases hx
  | cons z xs ih =>
    obtain ⟨-, h2, h3⟩ := h
    obtain ⟨hz, hnd'⟩ := List.nodup_cons.1 hnd
    rcases List.mem_cons.1 hx with rfl | hx
    · intro he
      exact hprev x (by rw [← h2, he]) (by simp)
    · apply ih h3 hnd' _ hx
      rintro y ⟨⟩
      exact hz

end

/-- Only the first node has none before it. -/
theorem Linked.pre_eq_none_iff (h : Linked next pre none head xs) (hnd : xs.Nodup) (hx : x ∈ xs) :
    pre x = none ↔ xs.head? = some x := by
  cases xs with
  | nil => cases hx
  | cons z xs =>
    obtain ⟨-, h2, h3⟩ := h
    rcases List.mem_cons.1 hx with rfl | hx
    · exact iff_of_true h2 rfl
    · apply iff_of_false
      · intro hnone
        rcases h3.pre_mem hx with h | ⟨y, -, h⟩ <;> cases hnone.symm.trans h
      · intro he
        obtain rfl := Option.some.inj he
        exact (List.nodup_cons.1 hnd).1 hx

/-- Only the last node has none after it. -/
theorem Linked.next_eq_none_iff (h : Linked next pre prev head xs) (hnd : xs.Nodup) (hx : x ∈ xs) :
    next x = none ↔ xs.getLast? = some x := by
  induction xs generalizing prev head with
  | nil => cases hx
  | cons z xs ih =>
    obtain ⟨-, -, h3⟩ := h
    obtain ⟨hz, hnd'⟩ := List.nodup_cons.1 hnd
    rcases List.mem_cons.1 hx with rfl | hx
    · rw [h3.head_eq, List.head?_eq_none_iff]
      constructor
      · rintro rfl
        rfl
      · intro hlast
        cases xs with
        | nil => rfl
        | cons y ys =>
          rw [List.getLast?_cons_cons] at hlast
          exact absurd (List.mem_of_getLast? hlast) hz
    · rw [ih h3 hnd' hx]
      cases xs with
      | nil => cases hx
      | cons y ys => rw [List.getLast?_cons_cons]

/-- What is before the list may be replaced. -/
theorem Linked.relink (h : Linked next pre prev head xs) (hnd : xs.Nodup) (hn : ∀ y ∈ xs, next' y = next y)
    (hhead : ∀ y, head = some y → pre' y = prev') (hp : ∀ y ∈ xs, head ≠ some y → pre' y = pre y) :
    Linked next' pre' prev' head xs := by
  cases xs with
  | nil => exact h
  | cons x xs =>
    obtain ⟨rfl, -, h3⟩ := h
    have hx := (List.nodup_cons.1 hnd).1
    refine ⟨rfl, hhead x rfl, ?_⟩
    rw [hn x (by simp)]
    apply h3.congr
    · exact fun y hy => hn y (by simp [hy])
    · intro y hy
      apply hp y (by simp [hy])
      rintro ⟨⟩
      exact hx hy

/-- A new first node. -/
theorem Linked.push (h : Linked next pre none head xs) (hnd : xs.Nodup) (hnext : next' x = head) (hpre : pre' x = none)
    (hn : ∀ y ∈ xs, next' y = next y) (hhead : ∀ y, head = some y → pre' y = some x)
    (hp : ∀ y ∈ xs, head ≠ some y → pre' y = pre y) : Linked next' pre' none (some x) (x :: xs) := by
  refine ⟨rfl, hpre, ?_⟩
  rw [hnext]
  exact h.relink hnd hn hhead hp

/-- A node is taken out: the nodes beside it are linked. -/
theorem Linked.remove [DecidableEq α] (h : Linked next pre prev head xs) (hnd : xs.Nodup) (hx : x ∈ xs)
    (hprev : ∀ y, prev = some y → y ∉ xs)
    (hn : ∀ y ∈ xs, y ≠ x → next' y = if pre x = some y then next x else next y)
    (hp : ∀ y ∈ xs, y ≠ x → pre' y = if next x = some y then pre x else pre y) :
    Linked next' pre' prev (if pre x = prev then next x else head) (xs.erase x) := by
  induction xs generalizing prev head with
  | nil => cases hx
  | cons z xs ih =>
    obtain ⟨h1, h2, h3⟩ := h
    obtain ⟨hz, hnd'⟩ := List.nodup_cons.1 hnd
    by_cases hzx : z = x
    · subst hzx
      rw [if_pos h2, List.erase_cons_head]
      apply h3.relink hnd'
      · intro y hy
        have hne : y ≠ z := by rintro rfl; exact hz hy
        rw [hn y (by simp [hy]) hne, if_neg]
        rw [h2]
        intro he
        exact hprev y he (by simp [hy])
      · intro y hy
        have hmem : y ∈ xs := List.mem_of_head? (by rw [← h3.head_eq, hy])
        have hne : y ≠ z := by rintro rfl; exact hz hmem
        rw [hp y (by simp [hmem]) hne, if_pos hy, h2]
      · intro y hy hne'
        have hne : y ≠ z := by rintro rfl; exact hz hy
        rw [hp y (by simp [hy]) hne, if_neg hne']
    · have hx' : x ∈ xs := (List.mem_cons.1 hx).resolve_left (Ne.symm hzx)
      have hin : pre x ≠ prev := by
        intro he
        rcases h3.pre_mem hx' with h | ⟨y, hy, h⟩
        · exact hprev z (by rw [← he, h]) (by simp)
        · exact hprev y (by rw [← he, h]) (by simp [hy])
      rw [if_neg hin, List.erase_cons_tail (by simpa using hzx)]
      refine ⟨h1, ?_, ?_⟩
      · rw [hp z (by simp) hzx, if_neg, h2]
        intro he
        exact hz (h3.next_mem hx' he)
      · rw [hn z (by simp) hzx]
        apply ih h3 hnd' hx'
        · rintro y ⟨⟩
          exact hz
        · exact fun y hy => hn y (by simp [hy])
        · exact fun y hy => hp y (by simp [hy])

end Doubly
