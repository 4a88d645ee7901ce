import Mathlib.Data.BitVec

/-!
# Fields of a register

A register whose writes carry a mask in their upper half: a bit below 16 is stored if its mask bit is set, and kept
otherwise (`getLsbD_clrset`). A field of the register is the number between two places of it; a write sets the fields
that it covers (`field_eq`) and keeps those that it does not touch (`field_congr`).
-/

namespace Fields

variable {r r' clr set : BitVec 32} {s w x i : Nat}

/-- A write to a register with write masks. -/
def hiword (reg v : BitVec 32) : BitVec 32 := (reg &&& ~~~(v >>> 16)) ||| (v &&& (v >>> 16))

/-- The number in the `w` bits from place `s` on. -/
def field (reg : BitVec 32) (s w : Nat) : Nat := reg.toNat / 2 ^ s % 2 ^ w

theorem getLsbD_hiword (r v : BitVec 32) (i : Nat) :
    (hiword r v).getLsbD i = if v.getLsbD (16 + i) then v.getLsbD i else r.getLsbD i := by
  unfold hiword
  simp only [BitVec.getLsbD_or, BitVec.getLsbD_and, BitVec.getLsbD_not, BitVec.getLsbD_ushiftRight]
  by_cases hi : i < 32
  · cases h : v.getLsbD (16 + i) <;> simp [hi]
  · simp [hi, BitVec.getLsbD_of_ge r i (by omega), Bool.and_comm]

/-- Clearing and setting bits of the lower half. -/
theorem getLsbD_clrset (hset : ∀ i, 16 ≤ i → set.getLsbD i = false) :
    (hiword r (((clr ||| set) <<< 16) ||| set)).getLsbD i =
      if i < 16 ∧ (clr.getLsbD i ∨ set.getLsbD i) then set.getLsbD i else r.getLsbD i := by
  have h16 : set.getLsbD (16 + i) = false := hset _ (by omega)
  rw [getLsbD_hiword]
  simp only [BitVec.getLsbD_or, BitVec.getLsbD_shiftLeft, h16, Bool.or_false]
  have e1 : 16 + i - 16 = i := by omega
  by_cases hi : i < 16
  · have e2 : 16 + i < 32 := by omega
    have e3 : ¬16 + i < 16 := by omega
    simp [hi, e1, e2, e3]
  · have e2 : ¬16 + i < 32 := by omega
    simp [hi, e2]

theorem field_testBit (r : BitVec 32) (s w j : Nat) : (field r s w).testBit j = (decide (j < w) && r.getLsbD (s + j)) := by
  rw [field, Nat.testBit_mod_two_pow, ← Nat.shiftRight_eq_div_pow, Nat.testBit_shiftRight]
  rfl

theorem field_lt (r : BitVec 32) (s w : Nat) : field r s w < 2 ^ w := Nat.mod_lt _ (Nat.two_pow_pos w)

theorem field_eq (hx : x < 2 ^ w) (h : ∀ j < w, r.getLsbD (s + j) = x.testBit j) : field r s w = x := by
  refine Nat.eq_of_testBit_eq fun j => ?_
  rw [field_testBit]
  by_cases hj : j < w
  · simp [hj, h j hj]
  · have hlt : x < 2 ^ j := Nat.lt_of_lt_of_le hx (Nat.pow_le_pow_right (by decide) (by omega))
    simp [hj, Nat.testBit_lt_two_pow hlt]

theorem field_congr (h : ∀ j < w, r.getLsbD (s + j) = r'.getLsbD (s + j)) : field r s w = field r' s w := by
  refine field_eq (field_lt r' s w) fun j hj => ?_
  rw [h j hj, field_testBit]
  simp [hj]

/-- How a program reads a field: under its mask, and shifted down. -/
theorem field_mask (r : BitVec 32) (s w : Nat) :
    ((r &&& (BitVec.ofNat 32 (2 ^ w - 1) <<< s)) >>> s).toNat = field r s w := by
  refine Nat.eq_of_testBit_eq fun j => ?_
  rw [field_testBit, BitVec.testBit_toNat, BitVec.getLsbD_ushiftRight, BitVec.getLsbD_and, BitVec.getLsbD_shiftLeft,
    BitVec.getLsbD_ofNat, Nat.testBit_two_pow_sub_one]
  have e : s + j - s = j := by omega
  have hge : ¬s + j < s := by omega
  by_cases hj : s + j < 32
  · have hj' : j < 32 := by omega
    simp [hj, hj', e, hge, Bool.and_comm]
  · simp [hj, BitVec.getLsbD_of_ge r (s + j) (by omega)]

end Fields
