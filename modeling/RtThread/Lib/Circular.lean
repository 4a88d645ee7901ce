import Mathlib.Data.List.Range
import Mathlib.Logic.Function.Basic

/-!
# The contents of a circular buffer

A buffer of `cap` cells holds `count` values, the first in the cell `start`, each of the others in the cell after the one
before it, modulo `cap`. The buffer is a double-ended queue: writing the cell after the last value appends (`content_push`),
writing the cell before the first prepends (`content_unshift`), and moving `start` on takes the first off (`content_pop`).
Blocks of values are appended (`content_written`) and taken off (`content_drop`) in the same way.
-/

namespace Circular

variable {α : Type} {pool : Nat → α} {cap start count i j : Nat} {v : α}

/-- The values of the buffer, in order. -/
def content (pool : Nat → α) (cap start count : Nat) : List α :=
  (List.range count).map fun j => pool ((start + j) % cap)

/-- The cells are reached with one subtraction at most. -/
theorem add_mod (hs : start < cap) (hj : j ≤ cap) :
    (start + j) % cap = if start + j < cap then start + j else start + j - cap := by
  split
  · exact Nat.mod_eq_of_lt ‹_›
  · rw [Nat.mod_eq_sub_mod (by omega)]
    exact Nat.mod_eq_of_lt (by omega)

/-- The cells of a buffer that is not full are not the next one. -/
theorem add_mod_ne (hs : start < cap) (hj : j < count) (hc : count < cap) :
    (start + j) % cap ≠ (start + count) % cap := by
  rw [add_mod hs (by omega), add_mod hs (by omega)]
  split_ifs <;> omega

/-- The next cell. -/
theorem succ_mod (hi : i < cap) : (if cap ≤ i + 1 then 0 else i + 1) = (i + 1) % cap := by
  rw [add_mod hi (by omega)]
  split_ifs <;> omega

/-- The cell before. -/
theorem pred_succ_mod (hi : i < cap) :
    (if 0 < i then i - 1 else cap - 1) < cap ∧ ((if 0 < i then i - 1 else cap - 1) + 1) % cap = i := by
  have hlt : (if 0 < i then i - 1 else cap - 1) < cap := by split <;> omega
  refine ⟨hlt, ?_⟩
  rw [add_mod hlt (by omega)]
  split_ifs <;> omega

theorem content_update (hi : ∀ j < count, (start + j) % cap ≠ i) :
    content (Function.update pool i v) cap start count = content pool cap start count := by
  refine List.map_congr_left fun j hj => ?_
  exact Function.update_of_ne (hi j (List.mem_range.1 hj)) _ _

theorem content_succ :
    content pool cap start (count + 1) = content pool cap start count ++ [pool ((start + count) % cap)] := by
  rw [content, List.range_succ, List.map_append]; rfl

/-- The first value, and the rest. -/
theorem content_pop (hs : start < cap) :
    content pool cap start (count + 1) = pool start :: content pool cap ((start + 1) % cap) count := by
  rw [content, List.range_succ_eq_map, List.map_cons, List.map_map, Nat.add_zero, Nat.mod_eq_of_lt hs]
  congr 1
  refine List.map_congr_left fun j _ => ?_
  rw [Function.comp, Nat.mod_add_mod, Nat.succ_eq_add_one, Nat.add_assoc, Nat.add_comm 1 j]

/-- Writing the cell after the last value. -/
theorem content_push (hs : start < cap) (hc : count < cap) :
    content (Function.update pool ((start + count) % cap) v) cap start (count + 1) =
      content pool cap start count ++ [v] := by
  rw [content_succ, Function.update_self, content_update fun j hj => add_mod_ne hs hj hc]

/-- Writing the cell before the first value. -/
theorem content_unshift (hi : i < cap) (hs : (i + 1) % cap = start) (hc : count < cap) :
    content (Function.update pool i v) cap i (count + 1) = v :: content pool cap start count := by
  rw [content_pop hi, Function.update_self, hs, content_update fun j hj => ?_]
  rw [← hs, Nat.mod_add_mod, Nat.add_assoc, add_mod hi (by omega)]
  split_ifs <;> omega

/-! ## Blocks -/

/-- `n` values are written from the cell `i` on, and nothing else is. -/
def Written (pool pool' : Nat → α) (cap i n : Nat) (f : Nat → α) : Prop :=
  (∀ j < n, pool' ((i + j) % cap) = f j) ∧ ∀ k, (∀ j < n, (i + j) % cap ≠ k) → pool' k = pool k

variable {pool' : Nat → α} {f : Nat → α} {n : Nat}

/-- Writing the cells after the last value. -/
theorem content_written (hs : start < cap) (hc : count + n ≤ cap) (hw : Written pool pool' cap ((start + count) % cap) n f) :
    content pool' cap start (count + n) = content pool cap start count ++ (List.range n).map f := by
  obtain ⟨hnew, hold⟩ := hw
  rw [content, List.range_add, List.map_append, List.map_map]
  congr 1
  · apply List.map_congr_left
    intro j hj
    apply hold
    intro i hi
    have hj' := List.mem_range.1 hj
    rw [Nat.mod_add_mod, Nat.add_assoc, add_mod hs (by omega), add_mod hs (by omega)]
    split_ifs <;> omega
  · apply List.map_congr_left
    intro j hj
    rw [← hnew j (List.mem_range.1 hj), Nat.mod_add_mod, Nat.add_assoc]
    rfl

/-- The first `n` values. -/
theorem content_take (hn : n ≤ count) : (content pool cap start count).take n = content pool cap start n := by
  rw [content, ← List.map_take, List.take_range, Nat.min_eq_left hn]
  rfl

/-- All but the first `n` values. -/
theorem content_drop (hn : n ≤ count) :
    (content pool cap start count).drop n = content pool cap ((start + n) % cap) (count - n) := by
  obtain ⟨m, rfl⟩ := Nat.exists_eq_add_of_le hn
  rw [content, List.range_add, List.map_append, List.map_map, List.drop_left' (by simp), Nat.add_sub_cancel_left]
  apply List.map_congr_left
  intro j _
  rw [Function.comp, Nat.mod_add_mod, Nat.add_assoc]

end Circular
