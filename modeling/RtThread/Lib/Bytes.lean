import Mathlib.Algebra.Group.Nat.Defs
import Mathlib.Data.Nat.Init
import Mathlib.Logic.Function.Basic
import Mathlib.Algebra.Order.Monoid.Unbundled.Pow

/-!
# Byte memory

A memory of bytes, and numbers of several bytes in it, the lowest byte first. A number that is stored is loaded again, up
to its width (`load_store`); loading depends on the bytes it covers only (`load_congr`).
-/

namespace Bytes

/-- The number in the `k` bytes from `a` on. -/
def load (m : Nat → BitVec 8) (a : Nat) : Nat → Nat
  | 0 => 0
  | k + 1 => (m a).toNat + 256 * load m (a + 1) k

/-- `v` is written to the `k` bytes from `a` on. -/
def store (m : Nat → BitVec 8) (a v : Nat) : Nat → Nat → BitVec 8
  | 0 => m
  | k + 1 => Function.update (store m (a + 1) (v / 256) k) a (BitVec.ofNat 8 v)

variable {m m' : Nat → BitVec 8} {a b v k x : Nat}

theorem store_of_apart (hx : x < a ∨ a + k ≤ x) : store m a v k x = m x := by
  induction k generalizing a v with
  | zero => rfl
  | succ k ih =>
    rw [store, Function.update_of_ne (by omega)]
    exact ih (by omega)

theorem load_congr (h : ∀ x, a ≤ x → x < a + k → m' x = m x) : load m' a k = load m a k := by
  induction k generalizing a with
  | zero => rfl
  | succ k ih =>
    rw [load, load, h a (Nat.le_refl a) (by omega), ih fun x h1 h2 => h x (by omega) (by omega)]

theorem load_store : load (store m a v k) a k = v % 256 ^ k := by
  induction k generalizing a v with
  | zero =>
    rw [Nat.pow_zero, Nat.mod_one]
    rfl
  | succ k ih =>
    have hrest : load (store m a v (k + 1)) (a + 1) k = load (store m (a + 1) (v / 256) k) (a + 1) k := by
      refine load_congr fun x h1 _ => ?_
      rw [store, Function.update_of_ne (by omega)]
    rw [load, hrest, ih, store, Function.update_self, BitVec.toNat_ofNat]
    show v % 256 + 256 * (v / 256 % 256 ^ k) = v % 256 ^ (k + 1)
    rw [Nat.pow_succ', Nat.mod_mul]

theorem load_store_of_lt (hv : v < 256 ^ k) : load (store m a v k) a k = v := by
  rw [load_store, Nat.mod_eq_of_lt hv]

theorem load_store_of_apart (h : a + k ≤ b ∨ b + k ≤ a) : load (store m b v k) a k = load m a k := by
  refine load_congr fun x h1 h2 => store_of_apart ?_
  omega

theorem load_lt : load m a k < 256 ^ k := by
  induction k generalizing a with
  | zero => exact Nat.one_pos
  | succ k ih =>
    have h1 := @ih (a + 1)
    rw [load, Nat.pow_succ]
    omega

/-- After a list of writes, a number that one of them wrote, if the others are apart from it. -/
theorem load_foldl_store {l : List (Nat × Nat)} (hm : (b, v) ∈ l ∨ load m b k = v) (hv : v < 256 ^ k)
    (h : ∀ x ∈ l, x = (b, v) ∨ b + k ≤ x.1 ∨ x.1 + k ≤ b) :
    load (l.foldl (fun m x => store m x.1 x.2 k) m) b k = v := by
  induction l generalizing m with
  | nil => exact hm.resolve_left (by simp)
  | cons x l ih =>
    apply ih
    · rcases h x (by simp) with rfl | hx
      · exact .inr (load_store_of_lt hv)
      · rcases hm with hm | hm
        · rcases List.mem_cons.1 hm with rfl | hm
          · exact .inr (load_store_of_lt hv)
          · exact .inl hm
        · exact .inr ((load_store_of_apart hx).trans hm)
    · exact fun y hy => h y (by simp [hy])

end Bytes
