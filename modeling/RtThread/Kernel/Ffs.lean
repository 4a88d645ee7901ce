import Mathlib.Tactic.IntervalCases

/-!
# Find first set

`__rt_ffs` of `kservice.c`, in the build without `RT_USING_TINY_FFS`: bits are numbered from `1` at the least
significant bit, and `0` has no bit set. `rtFfs_spec`: for a nonzero word it is the lowest set bit.
-/

namespace RtThread

/-- `__lowest_bit_bitmap`. -/
def lowestBitBitmap : List Nat :=
  [0, 0, 1, 0, 2, 0, 1, 0, 3, 0, 1, 0, 2, 0, 1, 0,
   4, 0, 1, 0, 2, 0, 1, 0, 3, 0, 1, 0, 2, 0, 1, 0,
   5, 0, 1, 0, 2, 0, 1, 0, 3, 0, 1, 0, 2, 0, 1, 0,
   4, 0, 1, 0, 2, 0, 1, 0, 3, 0, 1, 0, 2, 0, 1, 0,
   6, 0, 1, 0, 2, 0, 1, 0, 3, 0, 1, 0, 2, 0, 1, 0,
   4, 0, 1, 0, 2, 0, 1, 0, 3, 0, 1, 0, 2, 0, 1, 0,
   5, 0, 1, 0, 2, 0, 1, 0, 3, 0, 1, 0, 2, 0, 1, 0,
   4, 0, 1, 0, 2, 0, 1, 0, 3, 0, 1, 0, 2, 0, 1, 0,
   7, 0, 1, 0, 2, 0, 1, 0, 3, 0, 1, 0, 2, 0, 1, 0,
   4, 0, 1, 0, 2, 0, 1, 0, 3, 0, 1, 0, 2, 0, 1, 0,
   5, 0, 1, 0, 2, 0, 1, 0, 3, 0, 1, 0, 2, 0, 1, 0,
   4, 0, 1, 0, 2, 0, 1, 0, 3, 0, 1, 0, 2, 0, 1, 0,
   6, 0, 1, 0, 2, 0, 1, 0, 3, 0, 1, 0, 2, 0, 1, 0,
   4, 0, 1, 0, 2, 0, 1, 0, 3, 0, 1, 0, 2, 0, 1, 0,
   5, 0, 1, 0, 2, 0, 1, 0, 3, 0, 1, 0, 2, 0, 1, 0,
   4, 0, 1, 0, 2, 0, 1, 0, 3, 0, 1, 0, 2, 0, 1, 0]

/-- `__rt_ffs`. -/
def rtFfs (value : BitVec 32) : Nat :=
  if value = 0#32 then 0
  else if value &&& 0xff#32 ≠ 0#32 then lowestBitBitmap.getD (value &&& 0xff#32).toNat 0 + 1
  else if value &&& 0xff00#32 ≠ 0#32 then lowestBitBitmap.getD ((value &&& 0xff00#32) >>> 8).toNat 0 + 9
  else if value &&& 0xff0000#32 ≠ 0#32 then lowestBitBitmap.getD ((value &&& 0xff0000#32) >>> 16).toNat 0 + 17
  else lowestBitBitmap.getD ((value &&& 0xff000000#32) >>> 24).toNat 0 + 25

/-- `i` is the lowest set bit of `n`. -/
def LowestBit (n i : Nat) : Prop := n.testBit i = true ∧ ∀ j < i, n.testBit j = false

/-- The table gives the lowest set bit of a nonzero byte. -/
theorem lowestBitBitmap_spec {n : Nat} (hn : n < 256) (h0 : n ≠ 0) :
    lowestBitBitmap.getD n 0 < 8 ∧ LowestBit n (lowestBitBitmap.getD n 0) := by
  have key : ∀ n : Fin 256, n.val ≠ 0 → lowestBitBitmap.getD n 0 < 8 ∧
      n.val.testBit (lowestBitBitmap.getD n 0) = true ∧
      ∀ j : Fin 8, j.val < lowestBitBitmap.getD n 0 → n.val.testBit j = false := by decide +kernel
  obtain ⟨h1, h2, h3⟩ := key ⟨n, hn⟩ h0
  exact ⟨h1, h2, fun j hj => h3 ⟨j, Nat.lt_trans hj h1⟩ hj⟩

/-- The byte of a word from bit `8 * k` on. -/
theorem byte_testBit (value : BitVec 32) (s : Nat) (hs : s = 0 ∨ s = 8 ∨ s = 16 ∨ s = 24) (j : Nat) :
    (((value &&& (0xff#32 <<< s)) >>> s).toNat).testBit j = (decide (j < 8) && value.getLsbD (s + j)) := by
  have hff : ∀ i : Nat, (0xff#32).getLsbD i = decide (i < 8) := by
    intro i
    by_cases hi : i < 32
    · have : ∀ i : Fin 32, (0xff#32).getLsbD i = decide (i.val < 8) := by decide
      exact this ⟨i, hi⟩
    · rw [BitVec.getLsbD_of_ge _ _ (by omega)]; simp; omega
  change ((value &&& (0xff#32 <<< s)) >>> s).getLsbD j = _
  simp only [BitVec.getLsbD_ushiftRight, BitVec.getLsbD_and, BitVec.getLsbD_shiftLeft, hff]
  rcases hs with rfl | rfl | rfl | rfl <;> by_cases hj : j < 8 <;> simp [hj] <;> omega

variable {value : BitVec 32} {s : Nat}

/-- The lowest set bit, from the lowest set bit of a byte above which nothing is set below. -/
theorem lowestBit_byte (hs : s = 0 ∨ s = 8 ∨ s = 16 ∨ s = 24)
    (hlow : ∀ j < s, value.getLsbD j = false) (h0 : value &&& (0xff#32 <<< s) ≠ 0#32) :
    ∃ b < 8, lowestBitBitmap.getD ((value &&& (0xff#32 <<< s)) >>> s).toNat 0 = b ∧ LowestBit value.toNat (s + b) := by
  generalize hn : ((value &&& (0xff#32 <<< s)) >>> s).toNat = n
  have hlt : n < 256 := by
    refine Nat.lt_pow_two_of_testBit n (n := 8) fun i hi => ?_
    rw [← hn, byte_testBit value s hs]; simp; omega
  have hne : n ≠ 0 := by
    intro h
    apply h0
    apply BitVec.eq_of_getLsbD_eq
    intro i hi
    simp only [BitVec.getLsbD_zero]
    by_cases his : i < s
    · simp only [BitVec.getLsbD_and, BitVec.getLsbD_shiftLeft, his]; simp
    · have hb : (((value &&& (0xff#32 <<< s)) >>> s).toNat).testBit (i - s) = false := by rw [hn, h]; simp
      change ((value &&& (0xff#32 <<< s)) >>> s).getLsbD (i - s) = false at hb
      rwa [BitVec.getLsbD_ushiftRight, show s + (i - s) = i by omega] at hb
  obtain ⟨h1, h2, h3⟩ := lowestBitBitmap_spec hlt hne
  refine ⟨_, h1, rfl, ?_, fun j hj => ?_⟩
  · rw [← hn, byte_testBit value s hs, hn, Bool.and_eq_true] at h2
    exact h2.2
  · by_cases hjs : j < s
    · exact hlow j hjs
    · have hj8 : j - s < lowestBitBitmap.getD n 0 := by omega
      have := h3 (j - s) hj8
      rw [← hn, byte_testBit value s hs, show s + (j - s) = j by omega, decide_eq_true (Nat.lt_trans hj8 h1)] at this
      exact this

/-- Nothing is set in a byte that is zero. -/
theorem byte_zero (hs : s = 0 ∨ s = 8 ∨ s = 16 ∨ s = 24)
    (h0 : value &&& (0xff#32 <<< s) = 0#32) {j : Nat} (hj : s ≤ j) (hj' : j < s + 8) : value.getLsbD j = false := by
  have hb := byte_testBit value s hs (j - s)
  rw [h0, show s + (j - s) = j by omega] at hb
  have hj8 : j - s < 8 := by omega
  simpa [hj8] using hb.symm

/-- **`__rt_ffs` finds the lowest set bit.** -/
theorem rtFfs_spec (h : value ≠ 0#32) : ∃ i < 32, rtFfs value = i + 1 ∧ LowestBit value.toNat i := by
  unfold rtFfs
  rw [if_neg h]
  by_cases h0 : value &&& 0xff#32 = 0#32
  · have z0 : ∀ j < 8, value.getLsbD j = false := fun j hj =>
      byte_zero (s := 0) (by simp) (by simpa using h0) (Nat.zero_le _) (by omega)
    rw [if_neg (by simpa using h0)]
    by_cases h1 : value &&& 0xff00#32 = 0#32
    · have z1 : ∀ j < 16, value.getLsbD j = false := fun j hj => by
        by_cases hj' : j < 8
        · exact z0 j hj'
        · exact byte_zero (s := 8) (by simp) (by simpa using h1) (by omega) (by omega)
      rw [if_neg (by simpa using h1)]
      by_cases h2 : value &&& 0xff0000#32 = 0#32
      · have z2 : ∀ j < 24, value.getLsbD j = false := fun j hj => by
          by_cases hj' : j < 16
          · exact z1 j hj'
          · exact byte_zero (s := 16) (by simp) (by simpa using h2) (by omega) (by omega)
        rw [if_neg (by simpa using h2)]
        have h3 : value &&& (0xff#32 <<< 24) ≠ 0#32 := by
          intro h3
          apply h
          apply BitVec.eq_of_getLsbD_eq
          intro i hi
          simp only [BitVec.getLsbD_zero]
          by_cases hi' : i < 24
          · exact z2 i hi'
          · exact byte_zero (s := 24) (by simp) h3 (by omega) (by omega)
        obtain ⟨b, hb, e, hl⟩ := lowestBit_byte (by simp) z2 h3
        refine ⟨_, by omega, ?_, hl⟩
        rw [show lowestBitBitmap.getD ((value &&& 0xff000000#32) >>> 24).toNat 0 = b from e]; omega
      · rw [if_pos h2]
        obtain ⟨b, hb, e, hl⟩ := lowestBit_byte (s := 16) (by simp) z1 (by simpa using h2)
        refine ⟨_, by omega, ?_, hl⟩
        rw [show lowestBitBitmap.getD ((value &&& 0xff0000#32) >>> 16).toNat 0 = b from e]; omega
    · rw [if_pos h1]
      obtain ⟨b, hb, e, hl⟩ := lowestBit_byte (s := 8) (by simp) z0 (by simpa using h1)
      refine ⟨_, by omega, ?_, hl⟩
      rw [show lowestBitBitmap.getD ((value &&& 0xff00#32) >>> 8).toNat 0 = b from e]; omega
  · rw [if_pos h0]
    obtain ⟨b, hb, e, hl⟩ := lowestBit_byte (s := 0) (by simp) (by simp) (by simpa using h0)
    refine ⟨_, by omega, ?_, hl⟩
    simpa using e

end RtThread
