import Mathlib.Data.Nat.GCD.Basic
import RtThread.Lib.Bitmap
import RtThread.Lib.Fields
import RtThread.Lib.Runs

/-!
# `clk-pll.c`: the rate of a PLL

`rk_pll_set_rate` programs the dividers of a PLL, from the table of the PLL or from the wanted rate, and
`rk_pll_get_rate` computes the rate from the registers. The mode bit `DSMPD` and the fraction are written for a setting
with a fraction only, so they outlive it (`reads_back_iff`).
-/

namespace RtThread.ClkPll

open Fields Runs

/-- `MHZ`. -/
def mhz : Nat := 1000000

/-- `OSC_HZ`. -/
def oscHz : Nat := 24 * mhz

/-- `MIN_FOUTVCO_FREQ`. -/
def minFoutvcoFreq : Nat := 800 * mhz

/-- `MAX_FOUTVCO_FREQ`. -/
def maxFoutvcoFreq : Nat := 2000 * mhz

/-- `struct rk_pll_rate_table`. -/
structure RateTable where
  rate : Nat
  fbdiv : Nat
  postdiv1 : Nat
  refdiv : Nat
  postdiv2 : Nat
  dsmpd : Nat
  frac : Nat
  deriving DecidableEq

/-- `struct rk_pll_clock`: the place of its mode, and the table up to the entry with rate 0. -/
structure PllClock where
  modeShift : Nat
  rateTable : List RateTable
  modeShift_lt : modeShift < 16
  rate_ne : ∀ e ∈ rateTable, e.rate ≠ 0

/-- The registers of a PLL: at `mode_offset`, and at `con_offset` and behind it. -/
structure Regs where
  mode : BitVec 32
  con0 : BitVec 32
  con1 : BitVec 32
  con2 : BitVec 32
  deriving DecidableEq

/-! ## The masks -/

/-- `PLL_MODE_MASK`. -/
def pllModeMask : BitVec 32 := 0x1#32

/-- `PLLCON0_FBDIV_MASK`. -/
def pllcon0FbdivMask : BitVec 32 := 0xfff#32

/-- `PLLCON0_POSTDIV1_MASK`. -/
def pllcon0Postdiv1Mask : BitVec 32 := 0x7#32 <<< 12

/-- `PLLCON1_REFDIV_MASK`. -/
def pllcon1RefdivMask : BitVec 32 := 0x3f#32

/-- `PLLCON1_POSTDIV2_MASK`. -/
def pllcon1Postdiv2Mask : BitVec 32 := 0x7#32 <<< 6

/-- `PLLCON1_DSMPD_MASK`. -/
def pllcon1DsmpdMask : BitVec 32 := 0x1#32 <<< 12

/-- `PLLCON2_FRAC_MASK`. -/
def pllcon2FracMask : BitVec 32 := 0xffffff#32

/-- `rk_clrsetreg`. -/
def rkClrsetreg (reg clr set : BitVec 32) : BitVec 32 := hiword reg (((clr ||| set) <<< 16) ||| set)

/-- `rk_clrreg`. -/
def rkClrreg (reg clr : BitVec 32) : BitVec 32 := hiword reg (clr <<< 16)

/-- `rk_setreg`. -/
def rkSetreg (reg set : BitVec 32) : BitVec 32 := hiword reg ((set <<< 16) ||| set)

/-! ## The settings for a rate -/

/-- The loop of `gcd`. It does not end if `n` is 0 and `m` is not. -/
def gcdLoop : Nat → Nat → Nat → Option Nat
  | 0, _, _ => none
  | fuel + 1, m, n =>
    if m > 0 then
      if n > m then gcdLoop fuel (n - m) m else gcdLoop fuel (m - n) n
    else some n

/-- `gcd`. -/
def gcd (m n : Nat) : Option Nat := gcdLoop (m + n + 1) m n

/-- The post dividers, as the two loops try them. -/
def postdivs : List (Nat × Nat) := (List.range' 1 7).flatMap fun p1 => (List.range' 1 7).map fun p2 => (p1, p2)

/-- `rk_pll_clk_set_postdiv`: the post dividers and `foutvco`. Both dividers are 8 after loops that find nothing. -/
def rkPllClkSetPostdiv (foutHz foutvco : Nat) : Nat × Nat × Nat :=
  if foutHz < minFoutvcoFreq then
    match postdivs.find? fun p => minFoutvcoFreq ≤ foutHz * p.1 * p.2 ∧ foutHz * p.1 * p.2 ≤ maxFoutvcoFreq with
    | some (p1, p2) => (p1, p2, foutHz * p1 * p2)
    | none => (8, 8, foutvco)
  else (1, 1, foutvco)

/-- `rk_pll_clk_set_by_auto`; `none` if it does not end, and `some none` for `RT_NULL`. -/
def rkPllClkSetByAuto (finHz foutHz : Nat) : Option (Option RateTable) :=
  if finHz = 0 ∨ foutHz = 0 ∨ foutHz = finHz then some none
  else
    let (postdiv1, postdiv2, foutvco) := rkPllClkSetPostdiv foutHz (foutHz % 2 ^ 32)
    (gcd (finHz / mhz) (foutvco / mhz)).map fun clkGcd =>
      let refdiv := finHz / mhz / clkGcd
      let fbdiv := foutvco / mhz / clkGcd
      if finHz / mhz * mhz = finHz ∧ foutHz / mhz * mhz = foutHz then
        some { rate := 0, fbdiv, postdiv1, refdiv, postdiv2, dsmpd := 1, frac := 0 }
      else
        -- The shift drops bits of the 32-bit `f_frac`.
        let frac := foutvco % mhz * 2 ^ 24 % 2 ^ 32 / (finHz / refdiv) % 2 ^ 32
        some { rate := 0, fbdiv, postdiv1, refdiv, postdiv2, dsmpd := if 0 < frac then 0 else 1, frac }

/-- The entry that ends a table. -/
def sentinel : RateTable := ⟨0, 0, 0, 0, 0, 0, 0⟩

/-- `rk_get_pll_settings`. -/
def rkGetPllSettings (pll : PllClock) (rate : Nat) : Option (Option RateTable) :=
  match pll.rateTable.find? (·.rate = rate) with
  | some e => some (some e)
  | none => if rate = 0 then some (some sentinel) else rkPllClkSetByAuto (24 * mhz) rate

/-! ## The rate of the registers -/

/-- `rt_do_div`: the quotient, rounded. -/
def rtDoDiv (n base : Nat) : Nat := if base / 2 < n % base then n / base + 1 else n / base

/-- What a fraction adds to the rate. Both divisions are by `postdiv1`. -/
def fracRate (refdiv postdiv1 frac : Nat) : Nat :=
  rtDoDiv (rtDoDiv (rtDoDiv (oscHz * frac) refdiv >>> 24) postdiv1) postdiv1

/-- The rate of a PLL in normal mode. The products fit in 32 bits but for the last one. -/
def normalRate (fbdiv refdiv postdiv1 postdiv2 dsmpd frac : Nat) : Nat :=
  let rate := 24 * fbdiv / (refdiv * postdiv1 * postdiv2) * 1000000 % 2 ^ 32
  if dsmpd = 0 then rate + fracRate refdiv postdiv1 frac else rate

/-- `rk_pll_get_rate`. -/
def rkPllGetRate (pll : PllClock) (s : Regs) : Nat :=
  match ((s.mode &&& (pllModeMask <<< pll.modeShift)) >>> pll.modeShift).toNat with
  | 0 => oscHz
  | 1 =>
    normalRate ((s.con0 &&& pllcon0FbdivMask) >>> 0).toNat ((s.con1 &&& pllcon1RefdivMask) >>> 0).toNat
      ((s.con0 &&& pllcon0Postdiv1Mask) >>> 12).toNat ((s.con1 &&& pllcon1Postdiv2Mask) >>> 6).toNat
      ((s.con1 &&& pllcon1DsmpdMask) >>> 12).toNat ((s.con2 &&& pllcon2FracMask) >>> 0).toNat
  | _ => 32768

/-- The writes of `rk_pll_set_rate`. The wait for the lock, which the PLL reports by itself, ends. -/
def program (pll : PllClock) (s : Regs) (rate : RateTable) : Regs :=
  let s := { s with mode := rkClrsetreg s.mode (pllModeMask <<< pll.modeShift) (0#32 <<< pll.modeShift) }
  let s := { s with con1 := rkSetreg s.con1 (1#32 <<< 13) }
  let s := { s with
    con0 := rkClrsetreg s.con0 (pllcon0Postdiv1Mask ||| pllcon0FbdivMask)
      (BitVec.ofNat 32 (rate.postdiv1 <<< 12 ||| rate.fbdiv)) }
  let s := { s with
    con1 := rkClrsetreg s.con1 (pllcon1Postdiv2Mask ||| pllcon1RefdivMask)
      (BitVec.ofNat 32 (rate.postdiv2 <<< 6 ||| rate.refdiv)) }
  let s :=
    if rate.dsmpd = 0 then
      { s with
        con1 := rkClrsetreg s.con1 pllcon1DsmpdMask (BitVec.ofNat 32 (rate.dsmpd <<< 12))
        con2 := (s.con2 &&& ~~~pllcon2FracMask) ||| BitVec.ofNat 32 rate.frac }
    else s
  let s := { s with con1 := rkClrreg s.con1 (1#32 <<< 13) }
  { s with mode := rkClrsetreg s.mode (pllModeMask <<< pll.modeShift) (1#32 <<< pll.modeShift) }

/-- `rk_pll_set_rate`; `none` if it does not end. -/
def rkPllSetRate (pll : PllClock) (s : Regs) (drate : Nat) : Option (Regs × Int) :=
  if rkPllGetRate pll s = drate then some (s, 0)
  else
    match rkGetPllSettings pll drate with
    | none => none
    | some none => some (s, -1)
    | some (some rate) => some (program pll s rate, 0)

/-! ## The registers after a call -/

variable {pll : PllClock} {s s' : Regs} {r : RateTable} {d : Nat}

/-- The dividers and the fraction of an entry fit in their fields. -/
structure InRange (r : RateTable) : Prop where
  fbdiv : r.fbdiv < 2 ^ 12
  postdiv1 : 0 < r.postdiv1 ∧ r.postdiv1 < 2 ^ 3
  refdiv : 0 < r.refdiv ∧ r.refdiv < 2 ^ 6
  postdiv2 : 0 < r.postdiv2 ∧ r.postdiv2 < 2 ^ 3
  frac : r.frac < 2 ^ 24

theorem rkPllGetRate_eq (pll : PllClock) (s : Regs) : rkPllGetRate pll s =
    match field s.mode pll.modeShift 1 with
    | 0 => oscHz
    | 1 =>
      normalRate (field s.con0 0 12) (field s.con1 0 6) (field s.con0 12 3) (field s.con1 6 3) (field s.con1 12 1)
        (field s.con2 0 24)
    | _ => 32768 := by
  simp only [← field_mask]
  rfl

theorem testBit_two_fields {x y k i : Nat} (hx : x < 2 ^ k) :
    (y <<< k ||| x).testBit i = if i < k then x.testBit i else y.testBit (i - k) := by
  by_cases hi : i < k
  · have hge : ¬k ≤ i := by omega
    simp [hi, hge]
  · have hlt : x < 2 ^ i := Nat.lt_of_lt_of_le hx (Nat.pow_le_pow_right (by decide) (by omega))
    simp [hi, Nat.testBit_lt_two_pow hlt, Nat.not_lt.1 hi]

/-- A write of two fields, `x` below place `k` and `y` above it, under the mask of both. -/
theorem getLsbD_write {reg clr : BitVec 32} {x y k m i : Nat} (hx : x < 2 ^ k) (hy : y < 2 ^ m) (hk : k + m ≤ 16)
    (hclr : ∀ i, clr.getLsbD i = decide (i < k + m)) :
    (rkClrsetreg reg clr (BitVec.ofNat 32 (y <<< k ||| x))).getLsbD i =
      if i < k then x.testBit i else if i < k + m then y.testBit (i - k) else reg.getLsbD i := by
  have hhigh (j : Nat) (hj : k + m ≤ j) : (y <<< k ||| x).testBit j = false := by
    rw [testBit_two_fields hx, if_neg (by omega)]
    exact Nat.testBit_lt_two_pow (Nat.lt_of_lt_of_le hy (Nat.pow_le_pow_right (by decide) (by omega)))
  rw [rkClrsetreg, getLsbD_clrset fun j hj => by rw [BitVec.getLsbD_ofNat, hhigh j (by omega), Bool.and_false],
    BitVec.getLsbD_ofNat, hclr]
  by_cases hi : i < k + m
  · have h16 : i < 16 := by omega
    have h32 : i < 32 := by omega
    simp only [hi, h16, h32, decide_true, true_or, and_self, if_true, Bool.true_and]
    exact testBit_two_fields hx
  · rw [hhigh i (by omega), if_neg (show ¬i < k by omega), if_neg hi]
    simp [hi]

/-- A write that touches one bit. -/
theorem getLsbD_bit {reg clr set : BitVec 32} {k i : Nat} (hclr : ∀ i, clr.getLsbD i = true → i = k)
    (hset : ∀ i, set.getLsbD i = true → i = k) (hk : k < 16) (hi : i ≠ k) :
    (rkClrsetreg reg clr set).getLsbD i = reg.getLsbD i := by
  rw [rkClrsetreg, getLsbD_clrset fun j hj => ?_]
  · rw [if_neg]
    rintro ⟨-, h | h⟩
    · exact hi (hclr i h)
    · exact hi (hset i h)
  · by_contra h
    have := hset j (by simpa using h)
    omega

theorem rkSetreg_eq (reg set : BitVec 32) : rkSetreg reg set = rkClrsetreg reg 0#32 set := by
  rw [rkSetreg, rkClrsetreg, BitVec.zero_or]

theorem rkClrreg_eq (reg clr : BitVec 32) : rkClrreg reg clr = rkClrsetreg reg clr 0#32 := by
  rw [rkClrreg, rkClrsetreg, BitVec.or_zero, BitVec.or_zero]

theorem eq_of_one_shiftLeft {k i : Nat} (h : (1#32 <<< k).getLsbD i = true) : i = k := by
  rw [Bitmap.getLsbD_one_shiftLeft] at h
  simpa using (Bool.and_eq_true_iff.1 h).2

theorem zero_getLsbD {k i : Nat} (h : (0#32).getLsbD i = true) : i = k := by simp at h

/-- The mask of the fields below place `k`. -/
theorem getLsbD_mask {k i : Nat} (hk : k ≤ 32) : (BitVec.ofNat 32 (2 ^ k - 1)).getLsbD i = decide (i < k) := by
  rw [BitVec.getLsbD_ofNat, Nat.testBit_two_pow_sub_one, ← Bool.decide_and]
  exact decide_eq_decide.2 ⟨fun h => h.2, fun h => ⟨by omega, h⟩⟩

/-- The registers after `program`: its own fields are those of the setting, and `DSMPD` and the fraction are if it has a
fraction. -/
structure Programmed (pll : PllClock) (s : Regs) (r : RateTable) (s' : Regs) : Prop where
  mode : field s'.mode pll.modeShift 1 = 1
  fbdiv : field s'.con0 0 12 = r.fbdiv
  postdiv1 : field s'.con0 12 3 = r.postdiv1
  refdiv : field s'.con1 0 6 = r.refdiv
  postdiv2 : field s'.con1 6 3 = r.postdiv2
  dsmpd : field s'.con1 12 1 = if r.dsmpd = 0 then 0 else field s.con1 12 1
  frac : field s'.con2 0 24 = if r.dsmpd = 0 then r.frac else field s.con2 0 24

section

variable (pll : PllClock) (s : Regs)

theorem program_mode (r : RateTable) : field (program pll s r).mode pll.modeShift 1 = 1 := by
  have hlt := pll.modeShift_lt
  have hm (reg : BitVec 32) :
      field (rkClrsetreg reg (pllModeMask <<< pll.modeShift) (1#32 <<< pll.modeShift)) pll.modeShift 1 = 1 := by
    refine field_eq (by decide) fun j hj => ?_
    obtain rfl : j = 0 := by omega
    rw [rkClrsetreg, getLsbD_clrset fun i hi => ?_]
    · have h32 : pll.modeShift < 32 := by omega
      simp [hlt, h32]
    · by_contra h
      have := eq_of_one_shiftLeft ((Bool.eq_false_or_eq_true _).resolve_right h)
      omega
  unfold program
  split <;> exact hm _

theorem program_con0 (hr : InRange r) {i : Nat} : (program pll s r).con0.getLsbD i =
    if i < 12 then r.fbdiv.testBit i else if i < 15 then r.postdiv1.testBit (i - 12) else s.con0.getLsbD i := by
  have h := @getLsbD_write s.con0 (pllcon0Postdiv1Mask ||| pllcon0FbdivMask) _ _ 12 3 i hr.fbdiv hr.postdiv1.2 (by decide)
    fun i => @getLsbD_mask 15 i (by decide)
  unfold program
  split <;> exact h

theorem program_con1 (hr : InRange r) {i : Nat} (hi : i ≠ 13) : (program pll s r).con1.getLsbD i =
      if i < 6 then r.refdiv.testBit i else if i < 9 then r.postdiv2.testBit (i - 6)
      else if i = 12 ∧ r.dsmpd = 0 then false else s.con1.getLsbD i := by
  have h1 (reg : BitVec 32) : (rkClrreg reg (1#32 <<< 13)).getLsbD i = reg.getLsbD i := by
    rw [rkClrreg_eq]
    exact getLsbD_bit (fun _ => eq_of_one_shiftLeft) (fun _ => zero_getLsbD) (by decide) hi
  have h2 (reg : BitVec 32) : (rkSetreg reg (1#32 <<< 13)).getLsbD i = reg.getLsbD i := by
    rw [rkSetreg_eq]
    exact getLsbD_bit (fun _ => zero_getLsbD) (fun _ => eq_of_one_shiftLeft) (by decide) hi
  have h3 := @getLsbD_write (rkSetreg s.con1 (1#32 <<< 13)) (pllcon1Postdiv2Mask ||| pllcon1RefdivMask) _ _ 6 3 i
    hr.refdiv.2 hr.postdiv2.2 (by decide) fun i => @getLsbD_mask 9 i (by decide)
  rw [h2] at h3
  unfold program
  split
  next hd =>
    dsimp only
    rw [h1, hd]
    by_cases h12 : i = 12
    · subst h12
      rw [rkClrsetreg, getLsbD_clrset fun j _ => ?_]
      · simp [pllcon1DsmpdMask]
      · simp
    · have hbit (reg : BitVec 32) :
          (rkClrsetreg reg pllcon1DsmpdMask (BitVec.ofNat 32 (0 <<< 12))).getLsbD i = reg.getLsbD i :=
        getLsbD_bit (fun _ => eq_of_one_shiftLeft) (fun _ => zero_getLsbD) (by decide) h12
      rw [hbit, h3]
      simp [h12]
  next hd =>
    rw [h1, h3]
    simp [hd]

theorem program_con2 (r : RateTable) {i : Nat} (hi : i < 24) :
    (program pll s r).con2.getLsbD i = if r.dsmpd = 0 then r.frac.testBit i else s.con2.getLsbD i := by
  have hmask : pllcon2FracMask.getLsbD i = true := by
    rw [show pllcon2FracMask = BitVec.ofNat 32 (2 ^ 24 - 1) from rfl, getLsbD_mask (by decide)]
    exact decide_eq_true hi
  have h32 : i < 32 := by omega
  unfold program
  split
  next hd =>
    rw [BitVec.getLsbD_or, BitVec.getLsbD_and, BitVec.getLsbD_not, hmask, BitVec.getLsbD_ofNat]
    simp [h32]
  next hd => rfl

theorem programmed (hr : InRange r) : Programmed pll s r (program pll s r) where
  mode := program_mode pll s r
  fbdiv := field_eq hr.fbdiv fun j hj => by rw [program_con0 pll s hr, Nat.zero_add, if_pos hj]
  postdiv1 := field_eq hr.postdiv1.2 fun j hj => by
    rw [program_con0 pll s hr, if_neg (by omega), if_pos (by omega), Nat.add_sub_cancel_left]
  refdiv := field_eq hr.refdiv.2 fun j hj => by
    rw [program_con1 pll s hr (by omega), Nat.zero_add, if_pos hj]
  postdiv2 := field_eq hr.postdiv2.2 fun j hj => by
    rw [program_con1 pll s hr (by omega), if_neg (by omega), if_pos (by omega), Nat.add_sub_cancel_left]
  dsmpd := by
    split
    next hd =>
      refine field_eq (by decide) fun j hj => ?_
      obtain rfl : j = 0 := by omega
      rw [program_con1 pll s hr (by decide)]
      simp [hd]
    next hd =>
      refine field_congr fun j hj => ?_
      obtain rfl : j = 0 := by omega
      rw [program_con1 pll s hr (by decide)]
      simp [hd]
  frac := by
    split
    next hd =>
      refine field_eq hr.frac fun j hj => ?_
      rw [Nat.zero_add, program_con2 pll s r hj, if_pos hd]
    next hd =>
      refine field_congr fun j hj => ?_
      rw [Nat.zero_add, program_con2 pll s r hj, if_neg hd]

end

/-! ## The setting for a whole number of MHz -/

/-- The loop subtracts the smaller number from the larger one until they are equal. -/
theorem gcdLoop_eq {fuel m n : Nat} (hn : 0 < n) (hf : m + n < fuel) : gcdLoop fuel m n = some (Nat.gcd m n) := by
  induction fuel generalizing m n with
  | zero => omega
  | succ fuel ih =>
    rw [gcdLoop]
    split
    next hm =>
      split
      next hlt =>
        rw [ih hm (by omega), Nat.gcd_comm m n, Nat.gcd_sub_self_left (Nat.le_of_lt hlt)]
      next hge =>
        rw [ih hn (by omega), Nat.gcd_sub_self_left (Nat.not_lt.1 hge)]
    next hm =>
      obtain rfl : m = 0 := by omega
      rw [Nat.gcd_zero_left]

theorem gcd_eq {m n : Nat} (hn : 0 < n) : gcd m n = some (Nat.gcd m n) := gcdLoop_eq hn (Nat.lt_succ_self _)

/-- A whole number of MHz, from 17 MHz to 2000 MHz. -/
def Whole (d : Nat) : Prop := d % mhz = 0 ∧ 17 * mhz ≤ d ∧ d ≤ 2000 * mhz

instance (d : Nat) : Decidable (Whole d) := inferInstanceAs (Decidable (_ ∧ _ ∧ _))

/-- What `rk_pll_get_rate` reads from a setting is `d`: exactly in integer mode, and as it computes it with a fraction. -/
structure Exact (r : RateTable) (d : Nat) : Prop extends InRange r where
  integer : r.dsmpd ≠ 0 → oscHz * r.fbdiv = d * (r.refdiv * r.postdiv1 * r.postdiv2)
  fraction : r.dsmpd = 0 → Whole d → normalRate r.fbdiv r.refdiv r.postdiv1 r.postdiv2 0 r.frac = d

/-- In the range of the loops, some post dividers bring the rate into the range of the VCO. -/
theorem exists_postdivs : ∀ n < 800, 17 ≤ n →
    (postdivs.find? fun p => 800 ≤ n * p.1 * p.2 ∧ n * p.1 * p.2 ≤ 2000).isSome := by
  decide +kernel

theorem mem_postdivs {p : Nat × Nat} (hp : p ∈ postdivs) : (0 < p.1 ∧ p.1 < 8) ∧ 0 < p.2 ∧ p.2 < 8 := by
  have hall : ∀ p ∈ postdivs, (0 < p.1 ∧ p.1 < 8) ∧ 0 < p.2 ∧ p.2 < 8 := by decide
  exact hall p hp

/-- The post dividers for `n` MHz, and the frequency of the VCO. -/
theorem rkPllClkSetPostdiv_spec {n : Nat} (h17 : 17 ≤ n) (h2000 : n ≤ 2000) : ∃ p1 p2,
    rkPllClkSetPostdiv (n * mhz) (n * mhz % 2 ^ 32) = (p1, p2, n * p1 * p2 * mhz) ∧
      (0 < p1 ∧ p1 < 8) ∧ (0 < p2 ∧ p2 < 8) ∧ n * p1 * p2 ≤ 2000 := by
  have hmul (a b : Nat) : n * mhz * a * b = n * a * b * mhz := by
    rw [Nat.mul_assoc, Nat.mul_right_comm n mhz, Nat.mul_assoc n a b]
  unfold rkPllClkSetPostdiv
  split
  next hlt =>
    have hn : n < 800 := Nat.lt_of_mul_lt_mul_right hlt
    obtain ⟨p, hp⟩ := Option.isSome_iff_exists.1 (exists_postdivs n hn h17)
    have heq : (postdivs.find? fun p => minFoutvcoFreq ≤ n * mhz * p.1 * p.2 ∧ n * mhz * p.1 * p.2 ≤ maxFoutvcoFreq) =
        some p := by
      rw [← hp]
      congr 1
      funext p
      rw [hmul, minFoutvcoFreq, maxFoutvcoFreq]
      exact decide_eq_decide.2 (and_congr (Nat.mul_le_mul_right_iff (by decide)) (Nat.mul_le_mul_right_iff (by decide)))
    rw [heq]
    have hmem := mem_postdivs (List.mem_of_find?_eq_some hp)
    have hle : 800 ≤ n * p.1 * p.2 ∧ n * p.1 * p.2 ≤ 2000 := by simpa using List.find?_some hp
    exact ⟨p.1, p.2, by rw [← hmul], hmem.1, hmem.2, hle.2⟩
  next hge =>
    have hmod : n * mhz % 2 ^ 32 = n * mhz := Nat.mod_eq_of_lt (by unfold mhz; omega)
    exact ⟨1, 1, by rw [hmod, Nat.mul_one, Nat.mul_one], by decide, by decide, by omega⟩

/-- The setting that is computed for a whole number of MHz is exact. -/
theorem rkPllClkSetByAuto_spec (hd : Whole d) (hne : d ≠ 24 * mhz) :
    ∃ r, rkPllClkSetByAuto (24 * mhz) d = some (some r) ∧ r.dsmpd = 1 ∧ Exact r d := by
  obtain ⟨h0, h17, h2000⟩ := hd
  obtain ⟨n, rfl⟩ : ∃ n, d = n * mhz := ⟨d / mhz, (Nat.div_mul_cancel (Nat.dvd_of_mod_eq_zero h0)).symm⟩
  have h17 : 17 ≤ n := Nat.le_of_mul_le_mul_right h17 (by decide)
  have h2000 : n ≤ 2000 := Nat.le_of_mul_le_mul_right h2000 (by decide)
  obtain ⟨p1, p2, hp, hp1, hp2, hv⟩ := rkPllClkSetPostdiv_spec h17 h2000
  have hpos : 0 < n * p1 * p2 := Nat.mul_pos (Nat.mul_pos (by omega) hp1.1) hp2.1
  generalize hvdef : n * p1 * p2 = v at hp hv hpos
  have hg24 := Nat.gcd_dvd_left 24 v
  have hgv := Nat.gcd_dvd_right 24 v
  have hgpos : 0 < Nat.gcd 24 v := Nat.gcd_pos_of_pos_left v (by decide)
  have hnz : ¬(24 * mhz = 0 ∨ n * mhz = 0 ∨ n * mhz = 24 * mhz) := by
    rintro (h | h | h)
    · exact absurd h (by decide)
    · omega
    · exact hne h
  have hwhole : n * mhz / mhz * mhz = n * mhz := by rw [Nat.mul_div_cancel n (by decide)]
  refine ⟨⟨0, v / Nat.gcd 24 v, p1, 24 / Nat.gcd 24 v, p2, 1, 0⟩, ?_, rfl, ⟨⟨?_, hp1, ?_, hp2, Nat.two_pow_pos 24⟩,
    fun _ => ?_, fun h => absurd h Nat.one_ne_zero⟩⟩
  · rw [rkPllClkSetByAuto, if_neg hnz, hp]
    dsimp only
    rw [Nat.mul_div_cancel v (by decide), Nat.mul_div_cancel 24 (by decide), gcd_eq hpos, Option.map_some,
      if_pos ⟨rfl, hwhole⟩]
  · exact Nat.lt_of_le_of_lt (Nat.div_le_self _ _) (by omega)
  · exact ⟨Nat.div_pos (Nat.le_of_dvd (by decide) hg24) hgpos, Nat.lt_of_le_of_lt (Nat.div_le_self _ _) (by decide)⟩
  · calc oscHz * (v / Nat.gcd 24 v) = mhz * (24 * (v / Nat.gcd 24 v)) := by unfold oscHz; ac_rfl
      _ = mhz * (24 / Nat.gcd 24 v * v) := by
        rw [← Nat.mul_div_assoc 24 hgv, Nat.div_mul_right_comm hg24]
      _ = n * mhz * (24 / Nat.gcd 24 v * p1 * p2) := by rw [← hvdef]; ac_rfl

theorem Whole.pos (hd : Whole d) : d ≠ 0 := by
  obtain ⟨-, h17, -⟩ := hd
  rintro rfl
  exact absurd h17 (by decide)

/-- The table and the computed settings are exact. -/
theorem rkGetPllSettings_exact (htab : ∀ e ∈ pll.rateTable, Exact e e.rate) (hd : Whole d)
    (hs : rkGetPllSettings pll d = some (some r)) : Exact r d := by
  unfold rkGetPllSettings at hs
  split at hs
  next e he =>
    obtain rfl := Option.some.inj (Option.some.inj hs)
    obtain rfl : e.rate = d := by simpa using List.find?_some he
    exact htab e (List.mem_of_find?_eq_some he)
  next =>
    rw [if_neg hd.pos] at hs
    by_cases hne : d = 24 * mhz
    · rw [rkPllClkSetByAuto, if_pos (.inr (.inr hne))] at hs
      cases hs
    · obtain ⟨r', hr', -, hex⟩ := rkPllClkSetByAuto_spec hd hne
      cases Option.some.inj (hs.symm.trans hr')
      exact hex

/-- The rate of the dividers alone. -/
theorem Exact.dividers (hex : Exact r d) (hd : Whole d) (hi : r.dsmpd ≠ 0) :
    24 * r.fbdiv / (r.refdiv * r.postdiv1 * r.postdiv2) * 1000000 % 2 ^ 32 = d := by
  obtain ⟨h0, -, h2000⟩ := hd
  obtain ⟨n, rfl⟩ : ∃ n, d = n * mhz := ⟨d / mhz, (Nat.div_mul_cancel (Nat.dvd_of_mod_eq_zero h0)).symm⟩
  have hpos : 0 < r.refdiv * r.postdiv1 * r.postdiv2 :=
    Nat.mul_pos (Nat.mul_pos hex.refdiv.1 hex.postdiv1.1) hex.postdiv2.1
  have hmul : mhz * (24 * r.fbdiv) = mhz * (n * (r.refdiv * r.postdiv1 * r.postdiv2)) := by
    calc mhz * (24 * r.fbdiv) = oscHz * r.fbdiv := by unfold oscHz; ac_rfl
      _ = n * mhz * (r.refdiv * r.postdiv1 * r.postdiv2) := hex.integer hi
      _ = mhz * (n * (r.refdiv * r.postdiv1 * r.postdiv2)) := by ac_rfl
  rw [Nat.eq_of_mul_eq_mul_left (by decide) hmul, Nat.mul_div_cancel n hpos]
  exact Nat.mod_eq_of_lt (by unfold mhz at h2000; omega)

/-! ## What is read back -/

/-- The rate that is read back after a setting. -/
theorem rkPllGetRate_program (pll : PllClock) (s : Regs) (hr : InRange r) : rkPllGetRate pll (program pll s r) =
    normalRate r.fbdiv r.refdiv r.postdiv1 r.postdiv2 (if r.dsmpd = 0 then 0 else field s.con1 12 1)
      (if r.dsmpd = 0 then r.frac else field s.con2 0 24) := by
  have P := programmed pll s hr
  rw [rkPllGetRate_eq, P.mode, P.fbdiv, P.postdiv1, P.refdiv, P.postdiv2, P.dsmpd, P.frac]
  rfl

/-- The state before a call for the rate `d` is right for it: the PLL has the rate, or `DSMPD` is set, or the setting has a
fraction of its own, or the fraction in the register adds nothing to the new rate. -/
def Settled (pll : PllClock) (s : Regs) (d : Nat) : Prop :=
  rkPllGetRate pll s = d ∨ field s.con1 12 1 ≠ 0 ∨ ∀ r, rkGetPllSettings pll d = some (some r) →
    r.dsmpd = 0 ∨ fracRate r.refdiv r.postdiv1 (field s.con2 0 24) = 0

/-- After a successful call for a whole number of MHz, that rate is read back exactly if the state before was right. -/
theorem rkPllSetRate_iff (htab : ∀ e ∈ pll.rateTable, Exact e e.rate) (hd : Whole d)
    (hs : rkPllSetRate pll s d = some (s', 0)) : rkPllGetRate pll s' = d ↔ Settled pll s d := by
  unfold rkPllSetRate at hs
  split at hs
  next hget =>
    obtain rfl := congrArg Prod.fst (Option.some.inj hs)
    exact iff_of_true hget (.inl hget)
  next hget =>
    split at hs
    · cases hs
    · cases hs
    next r hr =>
      obtain rfl : program pll s r = s' := congrArg Prod.fst (Option.some.inj hs)
      have hex := rkGetPllSettings_exact htab hd hr
      have hset : Settled pll s d ↔ field s.con1 12 1 ≠ 0 ∨ r.dsmpd = 0 ∨
          fracRate r.refdiv r.postdiv1 (field s.con2 0 24) = 0 := by
        refine (or_iff_right hget).trans (or_congr_right ⟨fun h => h r hr, fun h r' hr' => ?_⟩)
        cases Option.some.inj (hr.symm.trans hr')
        exact h
      rw [rkPllGetRate_program pll s hex.toInRange, hset]
      by_cases hfrac : r.dsmpd = 0
      · rw [if_pos hfrac, if_pos hfrac]
        exact iff_of_true (hex.fraction hfrac hd) (.inr (.inl hfrac))
      · rw [if_neg hfrac, if_neg hfrac, normalRate, hex.dividers hd hfrac]
        by_cases hbit : field s.con1 12 1 = 0
        · simp [hbit, hfrac]
        · simp [hbit]

/-- The successful calls of `rk_pll_set_rate`. -/
def SetRate (pll : PllClock) (s : Regs) (d : Nat) (s' : Regs) : Prop := rkPllSetRate pll s d = some (s', 0)

/-- The last call, if it was for a whole number of MHz, is read back. -/
def ReadsBack (pll : PllClock) (ds : List Nat) (s : Regs) : Prop := ∀ d ∈ ds.getLast?, Whole d → rkPllGetRate pll s = d

/-- A run of successful calls reads every whole number of MHz back, if and only if the state before every call for one was
right. -/
theorem reads_back_iff (htab : ∀ e ∈ pll.rateTable, Exact e e.rate) (ds : List Nat) :
    RunWith (SetRate pll) (ReadsBack pll) s ds s' ↔
      Run (fun s d s' => SetRate pll s d s' ∧ (Whole d → Settled pll s d)) s ds s' := by
  refine RunWith.iff_run (I := fun _ _ => True) trivial nofun (fun _ _ _ _ _ _ => trivial) fun ds s d s' _ => ?_
  refine and_congr_right fun hs => ?_
  rw [ReadsBack, List.getLast?_concat]
  constructor
  · intro h hd
    exact (rkPllSetRate_iff htab hd hs).1 (h d rfl hd)
  · rintro h _ ⟨⟩ hd
    exact (rkPllSetRate_iff htab hd hs).2 (h hd)

/-- A PLL with one entry of the driver's table. -/
def pll0 : PllClock := ⟨0, [⟨1200000000, 100, 2, 1, 1, 1, 0⟩], by decide, by decide⟩

theorem exact_pll0 : ∀ e ∈ pll0.rateTable, Exact e e.rate := by
  intro e he
  obtain rfl := List.mem_singleton.1 he
  exact ⟨⟨by decide, by decide, by decide, by decide, by decide⟩, fun _ => by decide, fun h => absurd h (by decide)⟩

/-- It is in slow mode, with `DSMPD` set. -/
def regs0 : Regs := ⟨0, 0, 0x1000, 0⟩

/-- 1000.5 MHz, and then 1000 MHz, which are read back as 31 Hz more. -/
def regs1 : Regs := ((rkPllSetRate pll0 regs0 1000500000).map Prod.fst).getD regs0

def regs2 : Regs := ((rkPllSetRate pll0 regs1 1000000000).map Prod.fst).getD regs0

theorem reads_back_iff_pll0 : RunWith (SetRate pll0) (ReadsBack pll0) regs0 [1000000000] regs2 ↔
    Run (fun s d s' => SetRate pll0 s d s' ∧ (Whole d → Settled pll0 s d)) regs0 [1000000000] regs2 :=
  reads_back_iff exact_pll0 _

theorem not_reads_back : ¬∀ (pll : PllClock) (s s' : Regs) (ds : List Nat), (∀ e ∈ pll.rateTable, Exact e e.rate) →
    field s.con1 12 1 = 1 → Run (SetRate pll) s ds s' → ReadsBack pll ds s' := by
  intro h
  have hrun : Run (SetRate pll0) regs0 ([] ++ [1000500000] ++ [1000000000]) regs2 :=
    .snoc (.snoc .nil (show rkPllSetRate pll0 regs0 1000500000 = some (regs1, 0) by decide))
      (show rkPllSetRate pll0 regs1 1000000000 = some (regs2, 0) by decide)
  exact absurd (h pll0 regs0 regs2 _ exact_pll0 (by decide) hrun 1000000000 rfl (by decide)) (by decide)

end RtThread.ClkPll
