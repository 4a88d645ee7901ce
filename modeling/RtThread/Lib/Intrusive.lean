import Mathlib.Data.List.Nodup
import Mathlib.Data.List.Perm.Basic
import Mathlib.Logic.Function.Basic

/-!
# Lists of things that have one node each

A family of lists whose elements carry their own node, so that a thing is in one list at most, once (`Sound`). Removing a
thing takes it out of the list it is in, whichever that is (`remove`); a thing that is in no list is linked into one
(`Sound.link`).
-/

namespace Intrusive

variable {P α : Type} [DecidableEq α] [DecidableEq P]

/-- No thing is twice in a list, or in two lists. -/
structure Sound (lists : P → List α) : Prop where
  nodup : ∀ p, (lists p).Nodup
  one : ∀ {p q x}, x ∈ lists p → x ∈ lists q → p = q

/-- The node of `x` is unlinked. -/
def remove (x : α) (lists : P → List α) : P → List α := fun p => (lists p).erase x

variable {lists : P → List α} {x y : α} {p q : P} {xs : List α}

omit [DecidableEq P] in
theorem Sound.mem_remove (h : Sound lists) : y ∈ remove x lists p ↔ y ≠ x ∧ y ∈ lists p :=
  (h.nodup p).mem_erase_iff

omit [DecidableEq P] in
theorem Sound.remove (h : Sound lists) : Sound (remove x lists) where
  nodup p := (h.nodup p).erase x
  one hx hy := h.one (h.mem_remove.1 hx).2 (h.mem_remove.1 hy).2

omit [DecidableEq P] in
theorem Sound.not_mem_remove (h : Sound lists) : x ∉ Intrusive.remove x lists p := fun hx => (h.mem_remove.1 hx).1 rfl

omit [DecidableEq α] in
theorem mem_link (hp : xs.Perm (x :: lists p)) : y ∈ Function.update lists p xs q ↔ y ∈ lists q ∨ y = x ∧ q = p := by
  by_cases hq : q = p
  · subst hq
    rw [Function.update_self, hp.mem_iff, List.mem_cons, or_comm]
    simp
  · simp [hq]

omit [DecidableEq α] in
/-- A thing in no list is linked. -/
theorem Sound.link (h : Sound lists) (hx : ∀ q, x ∉ lists q) (hp : xs.Perm (x :: lists p)) :
    Sound (Function.update lists p xs) where
  nodup q := by
    by_cases hq : q = p
    · subst hq
      rw [Function.update_self, hp.nodup_iff]
      exact List.nodup_cons.2 ⟨hx q, h.nodup q⟩
    · rw [Function.update_of_ne hq]
      exact h.nodup q
  one {q r y} hy hy' := by
    rcases (mem_link hp).1 hy with hy | ⟨he, hq⟩ <;> rcases (mem_link hp).1 hy' with hy' | ⟨he', hr⟩
    · exact h.one hy hy'
    · rw [he'] at hy
      exact absurd hy (hx q)
    · rw [he] at hy'
      exact absurd hy' (hx r)
    · rw [hq, hr]

/-- A thing is moved to the list `p`. -/
theorem Sound.mem_move (h : Sound lists) (hp : xs.Perm (x :: Intrusive.remove x lists p)) :
    y ∈ Function.update (Intrusive.remove x lists) p xs q ↔ y ≠ x ∧ y ∈ lists q ∨ y = x ∧ q = p := by
  rw [mem_link hp, h.mem_remove]

theorem Sound.move (h : Sound lists) (hp : xs.Perm (x :: Intrusive.remove x lists p)) :
    Sound (Function.update (Intrusive.remove x lists) p xs) :=
  h.remove.link (fun _ => h.not_mem_remove) hp

end Intrusive
