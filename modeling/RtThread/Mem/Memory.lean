import Mathlib.Algebra.Group.Nat.Defs
import Mathlib.Logic.Function.Basic

/-!
# Words and memory

The arithmetic of `rt_size_t`, which wraps, and a memory in which the headers of an allocator stand between the data of
its users.
-/

namespace RtThread

/-- The width of `rt_size_t` and `RT_ALIGN_SIZE`. -/
structure Word where
  bits : Nat
  alignSize : Nat
  alignSize_pow : ∃ n, alignSize = 2 ^ n
  alignSize_lt : alignSize < 2 ^ bits

namespace Word

theorem pow_eight : ∃ n, 8 = 2 ^ n := ⟨3, rfl⟩

theorem eight_lt : 8 < 2 ^ 64 := by decide

variable (w : Word) {a b size : Nat}

/-- `a + b`. -/
def add (a b : Nat) : Nat := (a + b) % 2 ^ w.bits

/-- `a - b`. -/
def sub (a b : Nat) : Nat := (a + (2 ^ w.bits - b)) % 2 ^ w.bits

/-- `RT_ALIGN(size, RT_ALIGN_SIZE)`; `& ~(RT_ALIGN_SIZE - 1)` clears the bits below the power of two. -/
def rtAlign (size : Nat) : Nat :=
  let x := w.sub (w.add size w.alignSize) 1
  x - x % w.alignSize

/-- `RT_ALIGN_DOWN(size, RT_ALIGN_SIZE)`. -/
def rtAlignDown (size : Nat) : Nat := size - size % w.alignSize

variable {w}

theorem alignSize_pos (w : Word) : 0 < w.alignSize := by
  obtain ⟨n, hn⟩ := w.alignSize_pow
  rw [hn]; exact Nat.two_pow_pos n

theorem add_eq (h : a + b < 2 ^ w.bits) : w.add a b = a + b := Nat.mod_eq_of_lt h

theorem sub_eq (hb : b ≤ a) (ha : a < 2 ^ w.bits) : w.sub a b = a - b := by
  have e : a + (2 ^ w.bits - b) = (a - b) + 2 ^ w.bits := by omega
  rw [sub, e, Nat.add_mod_right, Nat.mod_eq_of_lt (by omega)]

theorem sub_mod_dvd (a n : Nat) : n ∣ a - a % n := Nat.dvd_sub_mod a

/-- What `RT_ALIGN` rounds, before it does. -/
theorem sub_add_one (w : Word) (size : Nat) :
    w.sub (w.add size w.alignSize) 1 = (size + w.alignSize - 1) % 2 ^ w.bits := by
  have hpos := w.alignSize_pos
  have hlt := Nat.two_pow_pos w.bits
  rw [sub, add, Nat.mod_add_mod]
  have e : size + w.alignSize + (2 ^ w.bits - 1) = (size + w.alignSize - 1) + 2 ^ w.bits := by omega
  rw [e, Nat.add_mod_right]

theorem alignSize_dvd_rtAlign (w : Word) (size : Nat) : w.alignSize ∣ w.rtAlign size := sub_mod_dvd _ _

/-- Without a wrap, the next multiple of `RT_ALIGN_SIZE`. -/
theorem rtAlign_spec (h : size + w.alignSize ≤ 2 ^ w.bits) : size ≤ w.rtAlign size ∧ w.rtAlign size < size + w.alignSize := by
  have hpos := w.alignSize_pos
  rw [rtAlign, sub_add_one, Nat.mod_eq_of_lt (by omega)]
  have := Nat.mod_lt (size + w.alignSize - 1) hpos
  omega

/-- Sizes within `RT_ALIGN_SIZE` of the maximum become `0`. -/
theorem rtAlign_wrap (hlt : size < 2 ^ w.bits) (h : 2 ^ w.bits < size + w.alignSize) : w.rtAlign size = 0 := by
  have hA := w.alignSize_lt
  have e : size + w.alignSize - 1 = (size + w.alignSize - 1 - 2 ^ w.bits) + 2 ^ w.bits := by omega
  rw [rtAlign, sub_add_one, e, Nat.add_mod_right, Nat.mod_eq_of_lt (by omega)]
  rw [Nat.mod_eq_of_lt (by omega), Nat.sub_self]

/-- A multiple stays as it is. -/
theorem rtAlign_of_dvd (hd : w.alignSize ∣ size) (h : size + w.alignSize ≤ 2 ^ w.bits) : w.rtAlign size = size := by
  obtain ⟨h1, h2⟩ := rtAlign_spec h
  have hd' : w.alignSize ∣ w.rtAlign size - size := Nat.dvd_sub (alignSize_dvd_rtAlign w size) hd
  have := Nat.eq_zero_of_dvd_of_lt hd' (by omega)
  omega

theorem alignSize_dvd_two_pow (w : Word) : w.alignSize ∣ 2 ^ w.bits := by
  obtain ⟨n, hn⟩ := w.alignSize_pow
  have hlt := w.alignSize_lt
  rw [hn] at hlt ⊢
  exact Nat.pow_dvd_pow 2 (Nat.le_of_lt ((Nat.pow_lt_pow_iff_right (by omega)).1 hlt))

/-- A rounded size may be rounded again. -/
theorem rtAlign_add_le (w : Word) (size : Nat) : w.rtAlign size + w.alignSize ≤ 2 ^ w.bits := by
  have hlt : w.rtAlign size < 2 ^ w.bits :=
    Nat.lt_of_le_of_lt (Nat.sub_le _ _) (Nat.mod_lt _ (Nat.two_pow_pos w.bits))
  have hd := Nat.dvd_sub w.alignSize_dvd_two_pow (alignSize_dvd_rtAlign w size)
  have := Nat.le_of_dvd (by omega) hd
  omega

theorem rtAlign_rtAlign (w : Word) (size : Nat) : w.rtAlign (w.rtAlign size) = w.rtAlign size :=
  rtAlign_of_dvd (alignSize_dvd_rtAlign w size) (rtAlign_add_le w size)

theorem rtAlign_mono {a b : Nat} (h : a ≤ b) (hb : b + w.alignSize ≤ 2 ^ w.bits) : w.rtAlign a ≤ w.rtAlign b := by
  obtain ⟨h1, -⟩ := rtAlign_spec hb
  obtain ⟨h2, h3⟩ := rtAlign_spec (show a + w.alignSize ≤ 2 ^ w.bits by omega)
  by_contra hlt
  have hd := Nat.dvd_sub (alignSize_dvd_rtAlign w a) (alignSize_dvd_rtAlign w b)
  have := Nat.le_of_dvd (by omega) hd
  omega

theorem alignSize_dvd_rtAlignDown (w : Word) (size : Nat) : w.alignSize ∣ w.rtAlignDown size := sub_mod_dvd _ _

theorem le_rtAlignDown {a : Nat} (hd : w.alignSize ∣ a) (h : a ≤ size) : a ≤ w.rtAlignDown size := by
  have hpos := w.alignSize_pos
  have hd' := Nat.dvd_sub hd (alignSize_dvd_rtAlignDown w size)
  have := Nat.mod_lt size hpos
  by_contra hlt
  have := Nat.le_of_dvd (by omega) hd'
  rw [rtAlignDown] at *
  omega

theorem rtAlignDown_le (w : Word) (size : Nat) : w.rtAlignDown size ≤ size := Nat.sub_le _ _

end Word

/-- Memory with headers of type `α` at some addresses. -/
structure Store (α : Type) where
  item : Nat → α
  byte : Nat → UInt8

namespace Store

variable {α : Type} {s : Store α} {enc : α → Nat → UInt8} {n x y : Nat} {a : α}

/-- Write a header of `n` bytes at the address `x`; `enc` says which bytes it has. -/
def put (enc : α → Nat → UInt8) (n : Nat) (s : Store α) (x : Nat) (a : α) : Store α where
  item := Function.update s.item x a
  byte y := if x ≤ y ∧ y < x + n then enc a (y - x) else s.byte y

/-- `rt_memcpy` of `n` bytes. -/
def copy (s : Store α) (dst src n : Nat) : Store α :=
  { s with byte := fun y => if dst ≤ y ∧ y < dst + n then s.byte (src + (y - dst)) else s.byte y }

/-- The bytes outside the header stay. -/
theorem put_byte (h : y < x ∨ x + n ≤ y) : (put enc n s x a).byte y = s.byte y := if_neg (by omega)

theorem copy_byte {dst src : Nat} (h : dst ≤ y ∧ y < dst + n) : (s.copy dst src n).byte y = s.byte (src + (y - dst)) :=
  if_pos h

theorem copy_byte_of_ne {dst src : Nat} (h : y < dst ∨ dst + n ≤ y) : (s.copy dst src n).byte y = s.byte y :=
  if_neg (by omega)

end Store

end RtThread
