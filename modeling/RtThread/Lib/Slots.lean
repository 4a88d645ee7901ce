import Mathlib.Data.List.Count
import Mathlib.Logic.Function.Basic

/-!
# Slots that hold counted things

A table of slots, each empty or with a thing in it, where the things know in how many slots they are (`Counted`). A slot is
emptied (`Counted.drop`), or filled with a thing that is in other slots or in none (`Counted.share`).
-/

namespace Slots

variable {α : Type} [DecidableEq α]

/-- Every thing in a slot is counted as often as it is in one. -/
def Counted (slots : List (Option α)) (refs : α → Option Int) : Prop :=
  ∀ a, some a ∈ slots → refs a = some (slots.count (some a) : Int)

variable {slots : List (Option α)} {refs refs' : α → Option Int} {a b : α} {i k : Nat}

theorem count_grow : (slots ++ List.replicate k none).count (some a) = slots.count (some a) := by
  simp [List.count_append, List.count_replicate]

omit [DecidableEq α] in
theorem mem_grow : some a ∈ slots ++ List.replicate k none ↔ some a ∈ slots := by
  simp

/-- A slot with `a` is emptied. -/
theorem count_drop (h : slots[i]? = some (some a)) :
    slots.count (some b) = (slots.set i none).count (some b) + if b = a then 1 else 0 := by
  obtain ⟨hi, hget⟩ := List.getElem?_eq_some_iff.1 h
  rw [List.count_set hi, hget]
  by_cases hb : b = a
  · subst hb
    have hpos : 0 < slots.count (some b) := List.count_pos_iff.2 (List.mem_of_getElem? h)
    simp
    omega
  · have hne : (some a == some b) = false := by simp [Ne.symm hb]
    simp [hne, hb]

/-- An empty slot is filled with `a`. -/
theorem count_share (h : slots[i]? = some none) :
    (slots.set i (some a)).count (some b) = slots.count (some b) + if b = a then 1 else 0 := by
  obtain ⟨hi, hget⟩ := List.getElem?_eq_some_iff.1 h
  rw [List.count_set hi, hget]
  by_cases hb : b = a
  · subst hb
    simp
  · have hne : (some a == some b) = false := by simp [Ne.symm hb]
    simp [hne, hb]

theorem mem_share (h : slots[i]? = some none) : some b ∈ slots.set i (some a) ↔ some b ∈ slots ∨ b = a := by
  rw [← List.count_pos_iff, count_share h, ← List.count_pos_iff]
  split <;> simp [*]

theorem mem_drop_of_ne (h : slots[i]? = some (some a)) (hb : b ≠ a) : some b ∈ slots.set i none ↔ some b ∈ slots := by
  rw [← List.count_pos_iff, ← List.count_pos_iff, count_drop h, if_neg hb, Nat.add_zero]

/-- The last slot with `a` is emptied. -/
theorem mem_drop_self (h : slots[i]? = some (some a)) : some a ∈ slots.set i none ↔ 1 < slots.count (some a) := by
  rw [← List.count_pos_iff, count_drop h, if_pos rfl]
  omega

section

variable (h : Counted slots refs)

include h

theorem Counted.grow : Counted (slots ++ List.replicate k none) refs := by
  intro a ha
  rw [count_grow]
  exact h a (mem_grow.1 ha)

theorem Counted.congr (heq : ∀ a, some a ∈ slots → refs' a = refs a) : Counted slots refs' := by
  intro a ha
  rw [heq a ha]
  exact h a ha

theorem Counted.share (hi : slots[i]? = some none) (hothers : ∀ b, b ≠ a → refs' b = refs b)
    (hself : refs' a = some ((slots.count (some a) : Int) + 1)) : Counted (slots.set i (some a)) refs' := by
  intro b hb
  rw [count_share hi]
  by_cases hba : b = a
  · rw [hba, hself, if_pos rfl]
    rfl
  · rw [if_neg hba, Nat.add_zero, hothers b hba]
    exact h b (((mem_share hi).1 hb).resolve_right hba)

theorem Counted.drop (hi : slots[i]? = some (some a)) (hothers : ∀ b, b ≠ a → refs' b = refs b)
    (hself : 1 < slots.count (some a) → refs' a = some ((slots.count (some a) : Int) - 1)) :
    Counted (slots.set i none) refs' := by
  intro b hb
  by_cases hba : b = a
  · subst hba
    have hcount := count_drop (b := b) hi
    rw [hself ((mem_drop_self hi).1 hb), hcount]
    simp
  · have hcount := count_drop (b := b) hi
    rw [if_neg hba, Nat.add_zero] at hcount
    rw [hothers b hba, ← hcount]
    exact h b ((mem_drop_of_ne hi hba).1 hb)

/-- The count of a thing in a slot is one if and only if this is its last slot. -/
theorem Counted.eq_one_iff (hi : slots[i]? = some (some a)) :
    refs a = some 1 ↔ some a ∉ slots.set i none := by
  have hmem : some a ∈ slots := List.mem_of_getElem? hi
  have hpos : 0 < slots.count (some a) := List.count_pos_iff.2 hmem
  rw [mem_drop_self hi, h a hmem]
  constructor
  · intro h1
    have := Option.some.inj h1
    omega
  · intro h1
    congr 1
    omega

end

end Slots
