import Mathlib.Data.BitVec

/-!
# Words as sets of small numbers

`Marks g P` says that the set bits of the word `g` are the numbers that satisfy `P`. Setting and clearing one bit
follows a change of `P` at one number, and a word is zero iff nothing below its width satisfies `P`.
-/

namespace Bitmap

variable {w : Nat} {g : BitVec w} {P Q : Nat → Prop} {i : Nat}

/-- Bit `i` of the word is set iff `P i`. -/
def Marks (g : BitVec w) (P : Nat → Prop) : Prop := ∀ i < w, (g.getLsbD i = true ↔ P i)

theorem getLsbD_one_shiftLeft (i j : Nat) : (1#w <<< i).getLsbD j = (decide (j < w) && decide (j = i)) := by
  simp only [BitVec.getLsbD_shiftLeft, BitVec.getLsbD_one]
  by_cases hj : j < w
  · rw [Bool.eq_iff_iff]
    simp only [hj, decide_true, Bool.true_and, Bool.and_eq_true, Bool.not_eq_true', decide_eq_true_eq,
      decide_eq_false_iff_not]
    omega
  · simp [hj]

theorem Marks.congr (h : Marks g P) (hPQ : ∀ i < w, (Q i ↔ P i)) : Marks g Q :=
  fun i hi => (h i hi).trans (hPQ i hi).symm

/-- Setting the bit of a number that now satisfies the predicate. -/
theorem Marks.set (h : Marks g P) (hQ : Q i) (hne : ∀ j, j ≠ i → (Q j ↔ P j)) : Marks (g ||| 1#w <<< i) Q := by
  intro j hj
  rw [BitVec.getLsbD_or, getLsbD_one_shiftLeft]
  by_cases e : j = i
  · subst e; simp [hj, hQ]
  · simp only [hj, e, decide_true, decide_false, Bool.and_false, Bool.or_false]
    exact (h j hj).trans (hne j e).symm

/-- Clearing the bit of a number that no longer satisfies the predicate. -/
theorem Marks.clear (h : Marks g P) (hQ : ¬Q i) (hne : ∀ j, j ≠ i → (Q j ↔ P j)) :
    Marks (g &&& ~~~(1#w <<< i)) Q := by
  intro j hj
  rw [BitVec.getLsbD_and, BitVec.getLsbD_not, getLsbD_one_shiftLeft]
  by_cases e : j = i
  · subst e; simp [hj, hQ]
  · simp only [hj, e, decide_true, decide_false, Bool.and_false, Bool.not_false, Bool.and_true]
    exact (h j hj).trans (hne j e).symm

theorem Marks.ne_zero_iff (h : Marks g P) : g ≠ 0#w ↔ ∃ i < w, P i := by
  constructor
  · intro hg
    by_contra hno
    refine hg (BitVec.eq_of_getLsbD_eq fun i hi => ?_)
    rw [BitVec.getLsbD_zero, ← Bool.not_eq_true, h i hi]
    exact fun hP => hno ⟨i, hi, hP⟩
  · rintro ⟨i, hi, hP⟩ rfl
    simpa using (h i hi).2 hP

end Bitmap
